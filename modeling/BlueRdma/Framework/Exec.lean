import Mathlib.Tactic

namespace BlueRdma

abbrev Exec (ε σ α : Type) := ExceptT ε (StateM σ) α

namespace Exec
variable {ε σ τ α β : Type}

/-- How the computation ends, and the state it leaves. -/
def ends (m : Exec ε σ α) (s : σ) : Except ε α × σ := m.run.run s

theorem ends_bind_ok {m : Exec ε σ α} {k : α → Exec ε σ β} {s t : σ} {a : α}
    (h : m.ends s=(.ok a,t)) : (m >>= k).ends s=(k a).ends t := by
  unfold ends at *
  simp only [ExceptT.run_bind,StateT.run_bind,h]
  rfl

theorem ends_bind_error {m : Exec ε σ α} {k : α → Exec ε σ β} {s t : σ} {e : ε}
    (h : m.ends s=(.error e,t)) : (m >>= k).ends s=(.error e,t) := by
  unfold ends at *
  simp only [ExceptT.run_bind,StateT.run_bind,h]
  rfl

@[simp] theorem ends_pure (a : α) (s : σ) : (pure a : Exec ε σ α).ends s=(.ok a,s) := rfl

@[simp] theorem ends_throw (e : ε) (s : σ) :
    (throw e : Exec ε σ α).ends s=(.error e,s) := rfl

/-- What the computation ends with has property `Q`. -/
structure Leads (m : Exec ε σ α) (s : σ) (Q : Except ε α → σ → Prop) : Prop where
  ended : Q (m.ends s).1 (m.ends s).2

theorem leads_of_ends {m : Exec ε σ α} {s t : σ} {r : Except ε α} {Q : Except ε α → σ → Prop}
    (h : m.ends s=(r,t)) (hQ : Q r t) : m.Leads s Q := ⟨by rwa [h]⟩

theorem Leads.mono {m : Exec ε σ α} {s : σ} {P Q : Except ε α → σ → Prop} (h : m.Leads s P)
    (himp : ∀ r t,P r t → Q r t) : m.Leads s Q := ⟨himp _ _ h.ended⟩

theorem leads_pure {a : α} {s : σ} {Q : Except ε α → σ → Prop} (h : Q (.ok a) s) :
    (pure a : Exec ε σ α).Leads s Q := ⟨h⟩

/-- A first part that succeeds hands over to the rest; one that fails ends the whole. -/
theorem leads_bind {m : Exec ε σ α} {k : α → Exec ε σ β} {s : σ} {Q : Except ε β → σ → Prop}
    (h : m.Leads s fun r t => match r with
      | .ok a => (k a).Leads t Q
      | .error e => Q (.error e) t) : (m >>= k).Leads s Q := by
  have hended := h.ended
  rcases hm : m.ends s with ⟨_|a,t⟩
  · rw [hm] at hended
    exact leads_of_ends (ends_bind_error hm) hended
  · rw [hm] at hended
    exact ⟨by rw [ends_bind_ok hm]; exact hended.ended⟩

theorem leads_modify {f : σ → σ} {s : σ} {Q : Except ε PUnit → σ → Prop}
    (h : Q (.ok PUnit.unit) (f s)) : (modify f : Exec ε σ PUnit).Leads s Q := ⟨h⟩

/-- A computation on a part of the state, with its errors embedded. -/
def zoom {δ : Type} (get : τ → σ) (put : τ → σ → τ) (wrap : δ → ε) (m : Exec δ σ α) : Exec ε τ α :=
  ExceptT.mk fun t =>
    match m.ends (get t) with
    | (.ok a,s) => (.ok a,put t s)
    | (.error e,s) => (.error (wrap e),put t s)

theorem zoom_ok {δ : Type} {get : τ → σ} {put : τ → σ → τ} {wrap : δ → ε} {m : Exec δ σ α} {t : τ}
    {a : α} {s : σ} (h : m.ends (get t)=(.ok a,s)) :
    (zoom get put wrap m).ends t=(.ok a,put t s) := by
  simp only [zoom,ends,ExceptT.run_mk,StateT.run] at h ⊢
  rw [h]

theorem zoom_error {δ : Type} {get : τ → σ} {put : τ → σ → τ} {wrap : δ → ε} {m : Exec δ σ α}
    {t : τ} {e : δ} {s : σ} (h : m.ends (get t)=(.error e,s)) :
    (zoom get put wrap m).ends t=(.error (wrap e),put t s) := by
  simp only [zoom,ends,ExceptT.run_mk,StateT.run] at h ⊢
  rw [h]

/-- The results of repeating a computation; the first error ends it. -/
def repeatTake (m : Exec ε σ α) : Nat → Exec ε σ (List α)
  | 0 => pure []
  | n+1 => do
      let a ← m
      let as ← repeatTake m n
      return a::as

end Exec

end BlueRdma
