import Mathlib.Data.List.Forall2
import Mathlib.Data.Option.Basic

namespace BlueRdma.Collect

/-- The results stand in the order of the calls. -/
theorem mapM_ok {α β ε : Type} (f : α → Except ε β) (l : List α) (ys : List β)
    (h : l.mapM f=.ok ys) : List.Forall₂ (fun a y => f a=.ok y) l ys := by
  induction l generalizing ys with
  | nil =>
      rw [List.mapM_nil] at h
      cases h
      exact .nil
  | cons a l ih =>
      rw [List.mapM_cons] at h
      rcases ha : f a with e|y
      · rw [ha] at h
        cases h
      rw [ha] at h
      rcases hl : l.mapM f with e|ys'
      · rw [hl] at h
        cases h
      rw [hl] at h
      cases h
      exact .cons ha (ih ys' hl)

/-- Every place of a list that collects is filled. -/
theorem mapM_id_eq_some {β : Type} (l : List (Option β)) (ys : List β) :
    l.mapM id=some ys ↔ l=ys.map some := by
  induction l generalizing ys with
  | nil =>
      rw [List.mapM_nil]
      constructor
      · intro h
        cases h
        rfl
      · intro h
        rw [eq_comm,List.map_eq_nil_iff] at h
        rw [h]
        rfl
  | cons a l ih =>
      rw [List.mapM_cons]
      rcases a with _|y
      · constructor
        · intro h
          cases h
        · intro h
          cases ys <;> cases h
      rcases hl : l.mapM id with _|zs
      · constructor
        · intro h
          cases h
        · intro h
          rcases ys with _|⟨z,zs⟩
          · cases h
          · rw [List.map_cons,List.cons.injEq] at h
            rw [(ih zs).mpr h.2] at hl
            cases hl
      · have hz := (ih zs).mp hl
        constructor
        · intro h
          cases h
          rw [List.map_cons,← hz]
        · intro h
          rcases ys with _|⟨z,ys⟩
          · cases h
          · rw [List.map_cons,List.cons.injEq] at h
            have hys : zs=ys := List.map_injective_iff.mpr (Option.some_injective _) (hz.symm.trans h.2)
            have hy : y=z := Option.some.inj h.1
            rw [hys,hy]
            rfl

theorem exists_map_some {β : Type} (l : List (Option β)) (h : ∀ x∈l,x.isSome) :
    ∃ ys : List β,l=ys.map some := by
  induction l with
  | nil => exact ⟨[],rfl⟩
  | cons x l ih =>
      obtain ⟨ys,hys⟩ := ih (fun x hx => h x (by simp [hx]))
      obtain ⟨y,hy⟩ := Option.isSome_iff_exists.mp (h x (by simp))
      exact ⟨y::ys,by rw [hy,hys]; rfl⟩

end BlueRdma.Collect
