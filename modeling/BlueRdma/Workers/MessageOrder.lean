import BlueRdma.Workers.Completion
namespace BlueRdma
namespace MessageTracker
open EventMeta (msgMeta)
variable {E : Type} [EventMeta E]

/-- Message numbers in increasing order, with `k` among them. -/
def insertNumber (k : Nat) (ks : List Nat) : List Nat :=
  ks.filter (fun q => q<k)++k::ks.filter (fun q => k<q)

theorem insertNumber_sorted (k : Nat) (ks : List Nat) (h : ks.Pairwise (·<·)) :
    (insertNumber k ks).Pairwise (·<·) := by
  refine List.pairwise_append.mpr ⟨h.filter _,List.pairwise_cons.mpr ⟨?_,h.filter _⟩,?_⟩
  · intro q hq
    exact of_decide_eq_true (List.mem_filter.mp hq).2
  · intro p hp q hq
    have hpk : p<k := of_decide_eq_true (List.mem_filter.mp hp).2
    rcases List.mem_cons.mp hq with rfl|hq
    · exact hpk
    · exact hpk.trans (of_decide_eq_true (List.mem_filter.mp hq).2)

theorem mem_insertNumber (k q : Nat) (ks : List Nat) : q∈insertNumber k ks ↔ q=k ∨ q∈ks := by
  simp only [insertNumber,List.mem_append,List.mem_cons,List.mem_filter,decide_eq_true_eq]
  constructor
  · rintro (⟨h,-⟩|rfl|⟨h,-⟩)
    · exact Or.inr h
    · exact Or.inl rfl
    · exact Or.inr h
  · rintro (rfl|h)
    · exact Or.inr (Or.inl rfl)
    · rcases Nat.lt_trichotomy q k with hlt|rfl|hgt
      · exact Or.inl ⟨h,hlt⟩
      · exact Or.inr (Or.inl rfl)
      · exact Or.inr (Or.inr ⟨h,hgt⟩)

/-- The list is cut in front of the first number that is at least `k`. -/
theorem insertNumber_split (k : Nat) (l r : List Nat) (hl : ∀ q∈l,q<k) (hr : ∀ q∈r,k≤q)
    (hs : r.Pairwise (·<·)) :
    insertNumber k (l++r)=if r.head?=some k then l++r else l++k::r := by
  have hleft : (l++r).filter (fun q => q<k)=l := by
    rw [List.filter_append,List.filter_eq_self.mpr (fun q hq => decide_eq_true (hl q hq)),
      List.filter_eq_nil_iff.mpr (fun q hq => by simpa using hr q hq),List.append_nil]
  have hright : (l++r).filter (fun q => k<q)=r.filter (fun q => k<q) := by
    rw [List.filter_append,List.filter_eq_nil_iff.mpr (fun q hq => by
      simpa using (hl q hq).le),List.nil_append]
  rw [insertNumber,hleft,hright]
  cases r with
  | nil => rfl
  | cons q r =>
      have hrest : ∀ p∈r,q<p := (List.pairwise_cons.mp hs).1
      split_ifs with hq
      · obtain rfl : q=k := Option.some.inj hq
        rw [List.filter_cons_of_neg (by simp),
          List.filter_eq_self.mpr (fun p hp => decide_eq_true (hrest p hp))]
      · have hqk : k<q := by
          have hne : q≠k := fun h => hq (congrArg some h)
          have := hr q (List.mem_cons_self ..)
          omega
        rw [List.filter_eq_self.mpr]
        intro p hp
        rcases List.mem_cons.mp hp with rfl|hp
        · exact decide_eq_true hqk
        · exact decide_eq_true (hqk.trans (hrest p hp))

/-- Queued events numbered in MSN order stay so when an event of the same window is appended,
and an event whose number is already there changes nothing. -/
theorem append_numbered (t : MessageTracker E) (event : E) (ks : List Nat) (k : Nat)
    (hks : t.inner.map (fun e => (msgMeta e).msn)=ks.map Msn.wrap)
    (hsorted : ks.Pairwise (·<·)) (hnear : ∀ q∈ks,q<k+2^15 ∧ k<q+2^15)
    (he : (msgMeta event).msn=Msn.wrap k) :
    (t.append event).inner.map (fun e => (msgMeta e).msn)=(insertNumber k ks).map Msn.wrap := by
  obtain ⟨l,r,hlr,hr,hl,happ⟩ := t.append_split event
  rw [hlr,List.map_append] at hks
  obtain ⟨kl,kr,rfl,hkl,hkr⟩ := List.map_eq_append_iff.mp hks.symm
  obtain ⟨-,hsr,-⟩ := List.pairwise_append.mp hsorted
  have hge : ∀ q∈kr,k≤q := by
    intro q hq
    have hmem : Msn.wrap q∈r.map (fun e => (msgMeta e).msn) := hkr ▸ List.mem_map_of_mem hq
    obtain ⟨e,he',heq⟩ := List.mem_map.mp hmem
    have hn := hr e he'
    have hq' := hnear q (List.mem_append_right _ hq)
    rw [heq,he,Msn.wrap_lt _ _ hq'.1 hq'.2] at hn
    omega
  have hlt : ∀ q∈kl,q<k := by
    intro q hq
    rcases hlast : kl.getLast? with _|z
    · rw [List.getLast?_eq_none_iff.mp hlast] at hq
      cases hq
    obtain ⟨kl',rfl⟩ : ∃ kl',kl=kl'++[z] := ⟨_,(List.dropLast_append_getLast? z hlast).symm⟩
    have hz : z<k := by
      have hmap := congrArg List.getLast? hkl
      rw [List.getLast?_map,List.getLast?_map,hlast] at hmap
      obtain ⟨e,he',hmsn⟩ := Option.map_eq_some_iff.mp hmap.symm
      have hless := hl e he'
      have hz' := hnear z (by simp)
      rwa [hmsn,he,Msn.wrap_lt _ _ hz'.1 hz'.2] at hless
    rcases List.mem_append.mp hq with hq|hq
    · have hsl := (List.pairwise_append.mp hsorted).1
      have := (List.pairwise_append.mp hsl).2.2 q hq z (by simp)
      omega
    · rw [List.mem_singleton.mp hq]
      exact hz
  have hhead : (r.head?.all (fun e => (msgMeta e).msn != (msgMeta event).msn))=true ↔
      kr.head?≠some k := by
    have hmap : r.head?.map (fun e => (msgMeta e).msn)=kr.head?.map Msn.wrap := by
      rw [← List.head?_map,← List.head?_map,hkr]
    cases r with
    | nil =>
        cases kr with
        | nil => simp
        | cons q kr => simp at hmap
    | cons e r =>
        cases kr with
        | nil => simp at hmap
        | cons q kr =>
            have hq' := hnear q (by simp)
            have hmsn : (msgMeta e).msn=Msn.wrap q := by simpa using hmap
            simp only [List.head?_cons,Option.all_some,bne_iff_ne,ne_eq,hmsn,he,
              Msn.wrap_inj q k (by omega) (by omega),Option.some.injEq]
  rw [happ,insertNumber_split k kl kr hlt hge hsr]
  by_cases hk : kr.head?=some k
  · rw [if_pos hk,if_neg (fun h => hhead.mp h hk),hlr,List.map_append,List.map_append,hkl,hkr]
  · rw [if_neg hk,if_pos (hhead.mpr hk)]
    simp only [List.map_append,List.map_cons,hkl,hkr,he]

end MessageTracker
end BlueRdma
