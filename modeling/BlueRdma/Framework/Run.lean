import Mathlib.Tactic

namespace BlueRdma.Run
variable {σ ℓ : Type}

/-- The state after a schedule; a label that is not enabled leaves the state alone. -/
def run (step : σ → ℓ → σ) (s : σ) (ls : List ℓ) : σ := ls.foldl step s

/-- Every step of the schedule is taken in a state that allows it. -/
def Along (step : σ → ℓ → σ) (P : σ → ℓ → Prop) : σ → List ℓ → Prop
  | _,[] => True
  | s,l::ls => P s l ∧ Along step P (step s l) ls

instance (step : σ → ℓ → σ) (P : σ → ℓ → Prop) [∀ s l,Decidable (P s l)] (s : σ)
    (ls : List ℓ) : Decidable (Along step P s ls) :=
  match ls with
  | [] => inferInstanceAs (Decidable True)
  | l::ls =>
      have : Decidable (Along step P (step s l) ls) := instDecidableAlong step P (step s l) ls
      inferInstanceAs (Decidable (_ ∧ _))

variable (step : σ → ℓ → σ) (P : σ → ℓ → Prop)

@[simp] theorem run_nil (s : σ) : run step s []=s := rfl

@[simp] theorem run_cons (s : σ) (l : ℓ) (ls : List ℓ) :
    run step s (l::ls)=run step (step s l) ls := rfl

theorem run_append (s : σ) (ls ms : List ℓ) :
    run step s (ls++ms)=run step (run step s ls) ms := List.foldl_append

theorem run_concat (s : σ) (ls : List ℓ) (l : ℓ) :
    run step s (ls++[l])=step (run step s ls) l := run_append step s ls [l]

/-- What holds at the start and is kept by every allowed step holds at the end. -/
theorem run_inv (Inv : σ → Prop) (hstep : ∀ s l,P s l → Inv s → Inv (step s l)) (s : σ)
    (ls : List ℓ) (hls : Along step P s ls) (h : Inv s) : Inv (run step s ls) := by
  induction ls generalizing s with
  | nil => exact h
  | cons l ls ih => exact ih (step s l) hls.2 (hstep s l hls.1 h)

/-- The same without a condition on the steps. -/
theorem run_inv_all (Inv : σ → Prop) (hstep : ∀ s l,Inv s → Inv (step s l)) (s : σ)
    (ls : List ℓ) (h : Inv s) : Inv (run step s ls) := by
  induction ls generalizing s with
  | nil => exact h
  | cons l ls ih => exact ih (step s l) (hstep s l h)

/-- The same with a condition on the labels alone. -/
theorem run_inv_of_forall (Inv : σ → Prop) (ok : ℓ → Prop)
    (hstep : ∀ s l,ok l → Inv s → Inv (step s l)) (s : σ) (ls : List ℓ) (hls : ∀ l∈ls,ok l)
    (h : Inv s) : Inv (run step s ls) := by
  induction ls generalizing s with
  | nil => exact h
  | cons l ls ih =>
      exact ih (step s l) (fun x hx => hls x (List.mem_cons_of_mem l hx))
        (hstep s l (hls l List.mem_cons_self) h)

/-- A condition on the labels alone is met by all of them. -/
theorem along_iff_forall (ok : ℓ → Prop) (hok : ∀ s l,P s l ↔ ok l) (s : σ) (ls : List ℓ) :
    Along step P s ls ↔ ∀ l∈ls,ok l := by
  induction ls generalizing s with
  | nil => simp [Along]
  | cons l ls ih => rw [Along,hok,ih,List.forall_mem_cons]

/-- Two conditions on the allowed steps agree over a run if they agree wherever an invariant holds
that the second of them keeps. -/
theorem along_iff_of_allowed (Q R : σ → ℓ → Prop) (Inv : σ → Prop)
    (hiff : ∀ s l,P s l → Inv s → (Q s l ↔ R s l))
    (hstep : ∀ s l,P s l → R s l → Inv s → Inv (step s l)) (s : σ) (ls : List ℓ)
    (hls : Along step P s ls) (h : Inv s) : Along step Q s ls ↔ Along step R s ls := by
  induction ls generalizing s with
  | nil => exact Iff.rfl
  | cons l ls ih =>
      refine (and_congr_left' (hiff s l hls.1 h)).trans (and_congr_right fun hl => ?_)
      exact ih (step s l) hls.2 (hstep s l hls.1 hl h)

/-- The same without a condition on the steps. -/
theorem along_iff_of_inv (Q : σ → ℓ → Prop) (Inv : σ → Prop)
    (hiff : ∀ s l,Inv s → (P s l ↔ Q s l)) (hstep : ∀ s l,Q s l → Inv s → Inv (step s l)) (s : σ)
    (ls : List ℓ) (h : Inv s) : Along step P s ls ↔ Along step Q s ls := by
  have hall : Along step (fun _ _ => True) s ls :=
    (along_iff_forall step _ (fun _ => True) (fun _ _ => Iff.rfl) s ls).mpr fun _ _ => trivial
  exact along_iff_of_allowed step (fun _ _ => True) P Q Inv (fun s l _ => hiff s l)
    (fun s l _ => hstep s l) s ls hall h

theorem along_mono (Q : σ → ℓ → Prop) (hPQ : ∀ s l,P s l → Q s l) (s : σ) (ls : List ℓ)
    (h : Along step P s ls) : Along step Q s ls := by
  induction ls generalizing s with
  | nil => trivial
  | cons l ls ih => exact ⟨hPQ s l h.1,ih (step s l) h.2⟩

theorem along_append (s : σ) (ls ms : List ℓ) :
    Along step P s (ls++ms) ↔ Along step P s ls ∧ Along step P (run step s ls) ms := by
  induction ls generalizing s with
  | nil => simp [Along]
  | cons l ls ih =>
      rw [List.cons_append,Along,Along,ih,and_assoc]
      rfl

/-- The states of a schedule without end. -/
def trace (step : σ → ℓ → σ) (s : σ) (ls : Nat → ℓ) : Nat → σ
  | 0 => s
  | n+1 => step (trace step s ls n) (ls n)

/-- What holds at the start and is kept by every step of the schedule holds at all times. -/
theorem trace_inv (Inv : σ → Prop) (s : σ) (ls : Nat → ℓ)
    (hstep : ∀ n t,Inv t → Inv (step t (ls n))) (h : Inv s) (n : Nat) :
    Inv (trace step s ls n) := by
  induction n with
  | zero => exact h
  | succ n ih => exact hstep n _ ih

/-- A record that no step takes anything from. -/
theorem trace_grows {α : Type} (f : σ → List α) (hstep : ∀ t l,f t<+:f (step t l)) (s : σ)
    (ls : Nat → ℓ) (n m : Nat) (hnm : n ≤ m) : f (trace step s ls n)<+:f (trace step s ls m) := by
  induction m,hnm using Nat.le_induction with
  | base => exact List.prefix_refl _
  | succ m _ ih => exact ih.trans (hstep _ _)

/-- A state that the rest of the schedule leaves alone is the last one. -/
theorem trace_eq_of_fixed (s : σ) (ls : Nat → ℓ) (n : Nat)
    (hfixed : ∀ m,n ≤ m → step (trace step s ls n) (ls m)=trace step s ls n) (m : Nat) (hm : n ≤ m) :
    trace step s ls m=trace step s ls n := by
  induction m,hm using Nat.le_induction with
  | base => rfl
  | succ m hm ih => rw [trace,ih,hfixed m hm]

section Refinement
variable {τ μ : Type}

/-- The steps of an abstract system that a run stands for. -/
def refined (step : σ → ℓ → σ) (f : σ → ℓ → List μ) : σ → List ℓ → List μ
  | _,[] => []
  | s,l::ls => f s l++refined step f (step s l) ls

/-- A refinement mapping: if each step does to the image of the state what the steps it stands for
do, so does a run. -/
theorem run_refined (step' : τ → μ → τ) (abs : σ → τ) (f : σ → ℓ → List μ) (Inv : σ → Prop)
    (hinv : ∀ s l,P s l → Inv s → Inv (step s l))
    (hstep : ∀ s l,P s l → Inv s → abs (step s l)=run step' (abs s) (f s l)) (s : σ)
    (ls : List ℓ) (hls : Along step P s ls) (h : Inv s) :
    abs (run step s ls)=run step' (abs s) (refined step f s ls) := by
  induction ls generalizing s with
  | nil => rfl
  | cons l ls ih =>
      rw [run_cons,refined,run_append,← hstep s l hls.1 h]
      exact ih (step s l) hls.2 (hinv s l hls.1 h)

end Refinement

section Answers
variable {τ ρ β : Type}

/-- The state after a list of requests, and the answers given on the way. -/
def serve (step : σ → ρ → σ × β) (s : σ) : List ρ → σ × List β
  | [] => (s,[])
  | r::rs =>
      let (s,b) := step s r
      let (s,bs) := serve step s rs
      (s,b::bs)

/-- Machines in related states that agree on every admitted request give the same answers. -/
theorem serve_related (step : σ → ρ → σ × β) (step' : τ → ρ → τ × β) (R : σ → τ → Prop)
    (ok : ρ → Prop) (hstep : ∀ s t r,ok r → R s t →
      R (step s r).1 (step' t r).1 ∧ (step s r).2=(step' t r).2) (rs : List ρ)
    (hrs : ∀ r∈rs,ok r) (s : σ) (t : τ) (h : R s t) :
    R (serve step s rs).1 (serve step' t rs).1 ∧
      (serve step s rs).2=(serve step' t rs).2 := by
  induction rs generalizing s t with
  | nil => exact ⟨h,rfl⟩
  | cons r rs ih =>
      obtain ⟨hnext,hanswer⟩ := hstep s t r (hrs r List.mem_cons_self) h
      obtain ⟨hend,hrest⟩ := ih (fun x hx => hrs x (List.mem_cons_of_mem r hx)) _ _ hnext
      exact ⟨hend,congrArg₂ List.cons hanswer hrest⟩

end Answers

section Each
variable {α : Type} (Q : List α → α → Prop)

/-- Every entry of a record stands in relation `Q` to the entries before it. -/
def Each (xs : List α) : Prop := ∀ i x,xs[i]?=some x → Q (xs.take i) x

theorem each_nil : Each Q [] := by simp [Each]

theorem each_append (xs ys : List α) (hxs : Each Q xs) (hys : Each (fun l y => Q (xs++l) y) ys) :
    Each Q (xs++ys) := by
  intro i x hx
  rcases Nat.lt_or_ge i xs.length with hi|hi
  · rw [List.getElem?_append_left hi] at hx
    rw [List.take_append_of_le_length hi.le]
    exact hxs i x hx
  · rw [List.getElem?_append_right hi] at hx
    rw [List.take_append,List.take_of_length_le hi]
    exact hys _ x hx

theorem each_singleton (x : α) (hx : Q [] x) : Each Q [x] := by
  intro i y hy
  obtain ⟨rfl,rfl⟩ : i=0 ∧ y=x := by
    rcases i with _|i
    · exact ⟨rfl,(Option.some.inj hy).symm⟩
    · simp at hy
  exact hx

theorem Each.of_init {Q : List α → α → Prop} (xs ys : List α) (h : Each Q ys) (hxs : xs<+:ys) :
    Each Q xs := by
  obtain ⟨zs,rfl⟩ := hxs
  intro i x hx
  have hi : i<xs.length := (List.getElem?_eq_some_iff.mp hx).1
  have hxy := h i x (by rw [List.getElem?_append_left hi]; exact hx)
  rwa [List.take_append_of_le_length hi.le] at hxy

end Each
end BlueRdma.Run
