import BlueRdma.Framework.Run
import BlueRdma.Workers.MessageOrder

namespace BlueRdma
open EventMeta (msgMeta)
variable {E : Type} [EventMeta E]

/-- Place of an event in the window of MSNs that begins with `first`. -/
def windowPlace (first : UInt16) (e : E) : Nat := ((msgMeta e).msn-first).toNat

/-- The queue lists the given events, each once and in window order. -/
structure Enumerates (first : UInt16) (q : List E) (P : Set E) : Prop where
  sorted : q.Pairwise (fun a b => windowPlace first a < windowPlace first b)
  mem : ∀ e,e∈q ↔ e∈P

/-- Events with distinct MSNs inside a window of `2^15-1` MSNs. -/
structure EventWindow (first : UInt16) (S : Set E) : Prop where
  near : ∀ e∈S,windowPlace first e<2^15-1
  distinct : ∀ e∈S,∀ e'∈S,(msgMeta e).msn=(msgMeta e').msn → e=e'

/-- What a message tracker is for: a set of events that wait for the acknowledged PSN. -/
structure Pending (E : Type) where
  events : Set E
  basePsn : Psn

inductive MessageOp (E : Type) where
  | append (e : E)
  | ack (psn : Psn)
  | pop

/-- One call, with the event a pop returns. -/
def MessageTracker.call (t : MessageTracker E) : MessageOp E → MessageTracker E × Option E
  | .append e => (t.append e,none)
  | .ack psn => (t.ack psn,none)
  | .pop => (t.pop.2,t.pop.1)

/-- The first event of the window order. -/
def Pending.First (first : UInt16) (p : Pending E) (e : E) : Prop :=
  e∈p.events ∧ ∀ x∈p.events,x≠e → windowPlace first e < windowPlace first x

/-- A pop takes the first event if it is acknowledged, and nothing otherwise. -/
inductive Pending.Call (first : UInt16) :
    Pending E → MessageOp E → Option E → Pending E → Prop
  | append (p : Pending E) (e : E) :
      Call first p (.append e) none {p with events := insert e p.events}
  | ack (p : Pending E) (psn : Psn) : Call first p (.ack psn) none {p with basePsn := psn}
  | pop (p : Pending E) (e : E) (he : p.First first e) (hend : (msgMeta e).endPsn ≤ p.basePsn) :
      Call first p .pop (some e) {p with events := p.events\{e}}
  | wait (p : Pending E) (h : ∀ e,p.First first e → ¬(msgMeta e).endPsn ≤ p.basePsn) :
      Call first p .pop none p

/-- A sequence of calls with what they return. -/
inductive Pending.Calls (first : UInt16) :
    Pending E → List (MessageOp E) → List (Option E) → Pending E → Prop
  | nil (p : Pending E) : Calls first p [] [] p
  | cons (p p' p'' : Pending E) (op : MessageOp E) (ops : List (MessageOp E)) (out : Option E)
      (outs : List (Option E)) (h : p.Call first op out p') (hs : Calls first p' ops outs p'') :
      Calls first p (op::ops) (out::outs) p''

/-- The tracker holds the set as a queue. -/
structure MessageTracker.Holds (first : UInt16) (t : MessageTracker E) (p : Pending E) : Prop where
  queue : Enumerates first t.inner p.events
  basePsn : t.basePsn=p.basePsn

@[simp] theorem MessageTracker.append_basePsn (t : MessageTracker E) (e : E) :
    (t.append e).basePsn=t.basePsn := by
  rw [append]
  split_ifs <;> rfl

theorem MessageTracker.appends_basePsn (t : MessageTracker E) (es : List E) :
    (es.foldl append t).basePsn=t.basePsn := by
  induction es generalizing t with
  | nil => rfl
  | cons e es ih => rw [List.foldl_cons,ih,append_basePsn]

section Window
variable {first : UInt16}

theorem wrap_windowPlace (first : UInt16) (e : E) :
    Msn.wrap (first.toNat+windowPlace first e)=(msgMeta e).msn := by
  have hf := first.toNat_lt
  have hm := (msgMeta e).msn.toNat_lt
  rw [← UInt16.toNat_inj,Msn.wrap_toNat,windowPlace,UInt16.toNat_sub]
  omega

theorem EventWindow.mono (S P : Set E) (h : EventWindow first S) (hP : P⊆S) :
    EventWindow first P :=
  ⟨fun e he => h.near e (hP he),fun e he e' he' => h.distinct e (hP he) e' (hP he')⟩

/-- Two queues of the same events are equal. -/
theorem Enumerates.unique (q q' : List E) (P : Set E) (h : Enumerates first q P)
    (h' : Enumerates first q' P) : q=q' := by
  have hnodup : ∀ l : List E,l.Pairwise (fun a b => windowPlace first a < windowPlace first b) →
      l.Nodup := fun l hl => hl.imp (fun hab he => absurd hab (by rw [he]; exact lt_irrefl _))
  have hperm : q.Perm q' := (List.perm_ext_iff_of_nodup (hnodup q h.sorted)
    (hnodup q' h'.sorted)).mpr (fun e => (h.mem e).trans (h'.mem e).symm)
  exact hperm.eq_of_pairwise (fun a b _ _ hab hba => absurd hab (lt_asymm hba)) h.sorted h'.sorted

/-- The numbers of the events behind an insertion, from those before it. -/
theorem append_places (t : MessageTracker E) (e : E) (P : Set E)
    (hw : EventWindow first (insert e P)) (h : Enumerates first t.inner P) :
    (t.append e).inner.map (fun x => first.toNat+windowPlace first x)=
      MessageTracker.insertNumber (first.toNat+windowPlace first e)
        (t.inner.map (fun x => first.toNat+windowPlace first x)) := by
  have hnear : ∀ x∈t.inner,windowPlace first x<2^15-1 := fun x hx =>
    hw.near x (Set.mem_insert_of_mem e ((h.mem x).mp hx))
  have he := hw.near e (Set.mem_insert e P)
  have hmsns := MessageTracker.append_numbered t e
    (t.inner.map (fun x => first.toNat+windowPlace first x)) (first.toNat+windowPlace first e)
    (by rw [List.map_map]
        exact List.map_congr_left (fun x _ => (wrap_windowPlace first x).symm))
    (List.pairwise_map.mpr (h.sorted.imp (fun hab => Nat.add_lt_add_left hab _)))
    (by intro q hq
        obtain ⟨x,hx,rfl⟩ := List.mem_map.mp hq
        have := hnear x hx
        omega)
    (wrap_windowPlace first e).symm
  have hback : ∀ q∈MessageTracker.insertNumber (first.toNat+windowPlace first e)
      (t.inner.map (fun x => first.toNat+windowPlace first x)),
      first.toNat+(Msn.wrap q-first).toNat=q := by
    intro q hq
    obtain ⟨x,rfl⟩ : ∃ x : E,q=first.toNat+windowPlace first x := by
      rcases (MessageTracker.mem_insertNumber _ _ _).mp hq with rfl|hq
      · exact ⟨e,rfl⟩
      · obtain ⟨x,-,rfl⟩ := List.mem_map.mp hq
        exact ⟨x,rfl⟩
    rw [wrap_windowPlace]
    rfl
  calc (t.append e).inner.map (fun x => first.toNat+windowPlace first x)
      =((t.append e).inner.map (fun x => (msgMeta x).msn)).map
          (fun m => first.toNat+(m-first).toNat) := by
        rw [List.map_map]
        rfl
    _=(MessageTracker.insertNumber (first.toNat+windowPlace first e)
          (t.inner.map (fun x => first.toNat+windowPlace first x))).map
          (fun q => first.toNat+(Msn.wrap q-first).toNat) := by
        rw [hmsns,List.map_map]
        rfl
    _=_ := (List.map_congr_left hback).trans (List.map_id _)

theorem append_enumerates (t : MessageTracker E) (e : E) (P : Set E)
    (hw : EventWindow first (insert e P)) (h : Enumerates first t.inner P) :
    Enumerates first (t.append e).inner (insert e P) := by
  have hplaces := append_places t e P hw h
  have hsub : ∀ x∈(t.append e).inner,x∈insert e P := by
    intro x hx
    rcases t.mem_append e x hx with rfl|hx
    · exact Set.mem_insert x P
    · exact Set.mem_insert_of_mem e ((h.mem x).mp hx)
  refine ⟨?_,fun x => ⟨hsub x,?_⟩⟩
  · have hsorted := MessageTracker.insertNumber_sorted (first.toNat+windowPlace first e) _
      (List.pairwise_map.mpr (h.sorted.imp (fun hab => Nat.add_lt_add_left hab first.toNat)))
    rw [← hplaces,List.pairwise_map] at hsorted
    exact hsorted.imp Nat.lt_of_add_lt_add_left
  · intro hx
    have hnum : first.toNat+windowPlace first x∈
        (t.append e).inner.map (fun x => first.toNat+windowPlace first x) := by
      rw [hplaces,MessageTracker.mem_insertNumber]
      rcases hx with rfl|hx
      · exact Or.inl rfl
      · exact Or.inr (List.mem_map_of_mem ((h.mem x).mpr hx))
    obtain ⟨y,hy,hyx⟩ := List.mem_map.mp hnum
    have hmsn : (msgMeta y).msn=(msgMeta x).msn := by
      rw [← wrap_windowPlace first y,hyx,wrap_windowPlace]
    rw [← hw.distinct y (hsub y hy) x hx hmsn]
    exact hy

theorem appends_enumerate (S : Set E) (hw : EventWindow first S) (arrivals : List E)
    (harr : ∀ e∈arrivals,e∈S) (t : MessageTracker E) (P : Set E) (hP : P⊆S)
    (h : Enumerates first t.inner P) :
    Enumerates first (arrivals.foldl MessageTracker.append t).inner (P∪{e | e∈arrivals}) := by
  induction arrivals generalizing t P with
  | nil => simpa using h
  | cons e arrivals ih =>
      have he : insert e P⊆S := Set.insert_subset (harr e List.mem_cons_self) hP
      have hrest := ih (fun x hx => harr x (List.mem_cons_of_mem e hx)) (t.append e) (insert e P) he
        (append_enumerates t e P (hw.mono S _ he) h)
      have hset : insert e P∪{x | x∈arrivals}=P∪{x | x∈e::arrivals} := by
        ext x
        simp only [Set.mem_union,Set.mem_insert_iff,Set.mem_ofPred_eq,List.mem_cons]
        tauto
      rwa [hset] at hrest

/-- The front of the queue is the first event. -/
theorem Enumerates.first_iff (e : E) (rest : List E) (p : Pending E)
    (h : Enumerates first (e::rest) p.events) (x : E) : p.First first x ↔ x=e := by
  have hlt : ∀ y∈rest,windowPlace first e < windowPlace first y := (List.pairwise_cons.mp h.sorted).1
  have hmem : e∈p.events := (h.mem e).mp List.mem_cons_self
  constructor
  · rintro ⟨hx,hleast⟩
    by_contra hne
    rcases List.mem_cons.mp ((h.mem x).mpr hx) with he|hr
    · exact hne he
    · exact lt_asymm (hlt x hr) (hleast e hmem (Ne.symm hne))
  · rintro rfl
    refine ⟨hmem,?_⟩
    intro y hy hne
    rcases List.mem_cons.mp ((h.mem y).mpr hy) with he|hr
    · exact absurd he hne
    · exact hlt y hr

theorem Enumerates.tail (e : E) (rest : List E) (P : Set E) (h : Enumerates first (e::rest) P) :
    Enumerates first rest (P\{e}) := by
  obtain ⟨hlt,hsorted⟩ := List.pairwise_cons.mp h.sorted
  refine ⟨hsorted,fun x => ?_⟩
  rw [Set.mem_sdiff,Set.mem_singleton_iff,← h.mem x,List.mem_cons]
  constructor
  · intro hx
    refine ⟨Or.inr hx,?_⟩
    rintro rfl
    exact lt_irrefl _ (hlt x hx)
  · rintro ⟨he|hx,hne⟩
    · exact absurd he hne
    · exact hx

/-- Every call does to the queue what it does to the set. -/
theorem MessageTracker.call_holds (S : Set E) (hw : EventWindow first S) (t : MessageTracker E)
    (p : Pending E) (hp : p.events⊆S) (h : t.Holds first p) (op : MessageOp E)
    (hop : ∀ e,op=.append e → e∈S) :
    ∃ p',p.Call first op (t.call op).2 p' ∧ p'.events⊆S ∧ (t.call op).1.Holds first p' := by
  cases op with
  | append e =>
      have hsub : insert e p.events⊆S := Set.insert_subset (hop e rfl) hp
      refine ⟨_,.append p e,hsub,append_enumerates t e p.events (hw.mono S _ hsub) h.queue,?_⟩
      rw [call,append_basePsn]
      exact h.basePsn
  | ack psn => exact ⟨_,.ack p psn,hp,h.queue,rfl⟩
  | pop =>
      rcases hq : t.inner with _|⟨e,rest⟩
      · have hpop : t.pop=(none,t) := by rw [pop,hq]
        have hnone : ∀ x,¬p.First first x := by
          intro x hx
          have := (h.queue.mem x).mpr hx.1
          rw [hq] at this
          simp at this
        rw [call,hpop]
        exact ⟨p,.wait p (fun x hx => absurd hx (hnone x)),hp,h⟩
      · have hqueue := h.queue
        rw [hq] at hqueue
        by_cases hend : (msgMeta e).endPsn ≤ t.basePsn
        · have hpop : t.pop=(some e,{t with inner := rest}) := by rw [pop,hq]; exact if_pos hend
          rw [call,hpop]
          exact ⟨_,.pop p e ((hqueue.first_iff e rest p e).mpr rfl) (h.basePsn ▸ hend),
            Set.sdiff_subset.trans hp,hqueue.tail e rest p.events,h.basePsn⟩
        · have hpop : t.pop=(none,t) := by rw [pop,hq]; exact if_neg hend
          rw [call,hpop]
          refine ⟨p,.wait p (fun x hx => ?_),hp,h⟩
          rw [(hqueue.first_iff e rest p x).mp hx,← h.basePsn]
          exact hend

theorem MessageTracker.calls_hold (S : Set E) (hw : EventWindow first S)
    (ops : List (MessageOp E)) (hops : ∀ e,.append e∈ops → e∈S) (t : MessageTracker E)
    (p : Pending E) (hp : p.events⊆S) (h : t.Holds first p) :
    ∃ p',p.Calls first ops (Run.serve call t ops).2 p' ∧
      (Run.serve call t ops).1.Holds first p' := by
  induction ops generalizing t p with
  | nil => exact ⟨p,.nil p,h⟩
  | cons op ops ih =>
      obtain ⟨p',hcall,hp',h'⟩ := call_holds S hw t p hp h op
        (fun e he => hops e (he ▸ List.mem_cons_self))
      obtain ⟨p'',hcalls,h''⟩ := ih (fun e he => hops e (List.mem_cons_of_mem op he)) _ p' hp' h'
      exact ⟨p'',.cons p p' p'' op ops _ _ hcall hcalls,h''⟩

end Window

theorem enumerates_nil (first : UInt16) : Enumerates first ([] : List E) ∅ :=
  ⟨List.Pairwise.nil,by simp⟩

/-- Whatever the order and the repetitions of the arrivals, the queue is the same: the events in
window order. With other calls in between it is a set of events from which a pop takes the
first one. -/
theorem arrival_order_irrelevant (first : UInt16) (S : Finset E) (base : Psn)
    (hnear : ∀ e∈S,windowPlace first e<2^15-1)
    (hdistinct : ∀ e∈S,∀ e'∈S,(msgMeta e).msn=(msgMeta e').msn → e=e') :
    (∃ q,q.Pairwise (fun a b => windowPlace first a < windowPlace first b) ∧ (∀ e,e∈q ↔ e∈S) ∧
      ∀ arrivals : List E,(∀ e,e∈arrivals ↔ e∈S) →
        arrivals.foldl MessageTracker.append ⟨[],base⟩=⟨q,base⟩) ∧
    ∀ ops : List (MessageOp E),(∀ e,.append e∈ops → e∈S) →
      ∃ p,Pending.Calls first ⟨∅,base⟩ ops (Run.serve MessageTracker.call ⟨[],base⟩ ops).2 p ∧
        (Run.serve MessageTracker.call ⟨[],base⟩ ops).1.Holds first p := by
  have hw : EventWindow first (↑S : Set E) := ⟨hnear,hdistinct⟩
  have hall : ∀ arrivals : List E,(∀ e,e∈arrivals ↔ e∈S) →
      Enumerates first (arrivals.foldl MessageTracker.append ⟨[],base⟩).inner (↑S : Set E) := by
    intro arrivals harr
    have h := appends_enumerate (↑S : Set E) hw arrivals (fun e he => (harr e).mp he) ⟨[],base⟩ ∅
      (Set.empty_subset _) (enumerates_nil first)
    have hset : ∅∪{e | e∈arrivals}=(↑S : Set E) := by
      ext e
      simp [harr]
    rwa [hset] at h
  refine ⟨?_,?_⟩
  · have hq := hall S.toList (fun e => Finset.mem_toList)
    refine ⟨_,hq.sorted,fun e => hq.mem e,?_⟩
    intro arrivals harr
    have hinner := (hall arrivals harr).unique _ _ _ hq
    have hbase := MessageTracker.appends_basePsn ⟨[],base⟩ arrivals
    rw [← hinner]
    exact congrArg (MessageTracker.mk _) hbase
  · intro ops hops
    exact MessageTracker.calls_hold (↑S : Set E) hw ops hops ⟨[],base⟩ ⟨∅,base⟩ (Set.empty_subset _)
      ⟨enumerates_nil first,rfl⟩

/-- Two events on either side of the wrap of the MSN. -/
def aroundWrap : Finset SendEvent :=
  {⟨.writeSignaled,⟨65535,⟨10⟩⟩,7⟩,⟨.writeSignaled,⟨0,⟨11⟩⟩,8⟩}

theorem arrival_order_irrelevant_wrap :
    (∃ q,q.Pairwise (fun a b => windowPlace 65535 a < windowPlace 65535 b) ∧
      (∀ e,e∈q ↔ e∈aroundWrap) ∧
      ∀ arrivals : List SendEvent,(∀ e,e∈arrivals ↔ e∈aroundWrap) →
        arrivals.foldl MessageTracker.append ⟨[],⟨0⟩⟩=⟨q,⟨0⟩⟩) ∧
    ∀ ops : List (MessageOp SendEvent),(∀ e,.append e∈ops → e∈aroundWrap) →
      ∃ p,Pending.Calls 65535 ⟨∅,⟨0⟩⟩ ops (Run.serve MessageTracker.call ⟨[],⟨0⟩⟩ ops).2 p ∧
        (Run.serve MessageTracker.call ⟨[],⟨0⟩⟩ ops).1.Holds 65535 p :=
  arrival_order_irrelevant 65535 aroundWrap ⟨0⟩ (by decide) (by decide)

end BlueRdma
