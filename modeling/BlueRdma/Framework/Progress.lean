import BlueRdma.Framework.Run

namespace BlueRdma

section Rank
variable {σ ℓ : Type} (step : σ → ℓ → σ)

/-- Each state short of the goal has labels that lower its rank, every other label either lowers
the rank as well or leaves these labels what they are, and one of them is taken some time. -/
theorem Run.eventually_of_rank (goal : σ → Prop) (rank : σ → Nat) (helps : σ → ℓ → Prop)
    (s : σ) (ls : Nat → ℓ) (hstep : ∀ n,¬goal (trace step s ls n) →
      goal (trace step s ls (n+1)) ∨ rank (trace step s ls (n+1)) < rank (trace step s ls n) ∨
      ¬helps (trace step s ls n) (ls n) ∧ rank (trace step s ls (n+1))=rank (trace step s ls n) ∧
        ∀ l,helps (trace step s ls n) l → helps (trace step s ls (n+1)) l)
    (hfair : ∀ n,¬goal (trace step s ls n) → ∃ m,n ≤ m ∧ helps (trace step s ls n) (ls m)) (n : Nat) :
    ∃ m,n ≤ m ∧ goal (trace step s ls m) := by
  obtain ⟨r,hr⟩ : ∃ r,rank (trace step s ls n)=r := ⟨_,rfl⟩
  induction r using Nat.strong_induction_on generalizing n with
  | _ r ih =>
      have hmove (n : Nat) (hr : rank (trace step s ls n)=r) :
          (∃ m,n ≤ m ∧ goal (trace step s ls m)) ∨ ¬helps (trace step s ls n) (ls n) ∧
            rank (trace step s ls (n+1))=r ∧
            ∀ l,helps (trace step s ls n) l → helps (trace step s ls (n+1)) l := by
        by_cases hgoal : goal (trace step s ls n)
        · exact Or.inl ⟨n,le_rfl,hgoal⟩
        rcases hstep n hgoal with hnext|hless|⟨hnot,hsame,hkeep⟩
        · exact Or.inl ⟨n+1,n.le_succ,hnext⟩
        · obtain ⟨m,hm,hgoal⟩ := ih _ (hr ▸ hless) (n+1) rfl
          exact Or.inl ⟨m,by omega,hgoal⟩
        · exact Or.inr ⟨hnot,hsame.trans hr,hkeep⟩
      -- on the time until a label that helps is taken
      have hwait (d : Nat) (n : Nat) (hr : rank (trace step s ls n)=r)
          (hhelps : helps (trace step s ls n) (ls (n+d))) :
          ∃ m,n ≤ m ∧ goal (trace step s ls m) := by
        induction d generalizing n with
        | zero => exact (hmove n hr).resolve_right fun h => h.1 hhelps
        | succ d ihd =>
            rcases hmove n hr with hgoal|⟨-,hsame,hkeep⟩
            · exact hgoal
            · obtain ⟨m,hm,hgoal⟩ := ihd (n+1) hsame (by
                rw [show n+1+d=n+(d+1) by omega]
                exact hkeep _ hhelps)
              exact ⟨m,by omega,hgoal⟩
      by_cases hgoal : goal (trace step s ls n)
      · exact ⟨n,le_rfl,hgoal⟩
      obtain ⟨m,hm,hhelps⟩ := hfair n hgoal
      exact hwait (m-n) n hr (by rwa [show n+(m-n)=m by omega])

end Rank

/-- The queue grows at its end only, and is served, the head first, again and again. -/
structure FairQueue {α : Type} (queue : Nat → List α) (served : Nat → Prop) : Prop where
  grows : ∀ n,¬served n → queue n<+:queue (n+1)
  pops : ∀ n,served n → queue (n+1)=(queue n).tail
  again : ∀ n,∃ m,n ≤ m ∧ served m

namespace FairQueue
variable {α : Type} {queue : Nat → List α} {served : Nat → Prop}

/-- Until it is served next, the queue only grows. -/
theorem next_served (h : FairQueue queue served) (n : Nat) :
    ∃ m,n ≤ m ∧ served m ∧ queue n<+:queue m := by
  classical
  have hex := h.again n
  refine ⟨Nat.find hex,(Nat.find_spec hex).1,(Nat.find_spec hex).2,?_⟩
  -- no time from `n` on before that one serves the queue
  have hwait (k : Nat) (hk : n≤k) : k ≤ Nat.find hex → queue n<+:queue k := by
    induction k,hk using Nat.le_induction with
    | base => exact fun _ => List.prefix_refl _
    | succ k hk ih =>
        intro hle
        have hnot : ¬served k := fun hs => Nat.find_min hex (by omega) ⟨hk,hs⟩
        exact (ih (by omega)).trans (h.grows k hnot)
  exact hwait _ (Nat.find_spec hex).1 le_rfl

/-- Whatever is in the queue is served at some time. -/
theorem reaches_head (h : FairQueue queue served) (a : α) (ahead behind : List α) (n : Nat)
    (hn : queue n=ahead++a::behind) : ∃ m,n ≤ m ∧ served m ∧ (queue m).head?=some a := by
  induction ahead generalizing n behind with
  | nil =>
      obtain ⟨m,hm,hserved,extra,hextra⟩ := h.next_served n
      refine ⟨m,hm,hserved,?_⟩
      rw [← hextra,hn]
      rfl
  | cons b ahead ih =>
      obtain ⟨m,hm,hserved,extra,hextra⟩ := h.next_served n
      have hnext : queue (m+1)=ahead++a::(behind++extra) := by
        rw [h.pops m hserved,← hextra,hn]
        simp
      obtain ⟨k,hk,hk'⟩ := ih (behind++extra) (m+1) hnext
      exact ⟨k,by omega,hk'⟩

theorem mem_reaches_head (h : FairQueue queue served) (a : α) (n : Nat) (ha : a∈queue n) :
    ∃ m,n ≤ m ∧ served m ∧ (queue m).head?=some a := by
  obtain ⟨ahead,behind,hn⟩ := List.append_of_mem ha
  exact h.reaches_head a ahead behind n hn

end FairQueue
end BlueRdma
