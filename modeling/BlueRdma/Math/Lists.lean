import Mathlib.Data.List.Basic
import Mathlib.Data.List.TakeWhile
import Mathlib.Data.List.TakeDrop
import Mathlib.Order.Basic

namespace BlueRdma.Lists

theorem insertIdx_append {α : Type} (l r : List α) (x : α) :
    (l++r).insertIdx l.length x=l++x::r := by
  induction l with
  | nil => rfl
  | cons a l ih => rw [List.cons_append,List.length_cons,List.insertIdx_succ_cons,ih]; rfl

theorem takeWhile_congr {α : Type} (p q : α → Bool) (l : List α) (h : ∀ x∈l,p x=q x) :
    l.takeWhile p=l.takeWhile q ∧ l.dropWhile p=l.dropWhile q := by
  induction l with
  | nil => exact ⟨rfl,rfl⟩
  | cons x l ih =>
      have hx := h x (List.mem_cons_self ..)
      have hl := ih (fun y hy => h y (List.mem_cons_of_mem _ hy))
      simp only [List.takeWhile_cons,List.dropWhile_cons,hx,hl.1,hl.2,and_self]

/-- What is left behind a prefix that takes everything up to `b`. -/
theorem lt_of_mem_dropWhile {α : Type} (f : α → Nat) (p : α → Bool) (b : Nat) (xs : List α)
    (hs : xs.Pairwise (fun x y => f x<f y)) (hp : ∀ x∈xs,f x≤b → p x=true) :
    ∀ x∈xs.dropWhile p,b<f x := by
  induction xs with
  | nil => simp
  | cons x xs ih =>
      rw [List.pairwise_cons] at hs
      by_cases hx : p x=true
      · rw [List.dropWhile_cons_of_pos hx]
        exact ih hs.2 (fun y hy => hp y (List.mem_cons_of_mem x hy))
      · rw [List.dropWhile_cons_of_neg hx]
        have hb : b<f x := Nat.lt_of_not_le (fun hle => hx (hp x List.mem_cons_self hle))
        intro y hy
        rcases List.mem_cons.mp hy with rfl|hy
        · exact hb
        · exact hb.trans (hs.1 y hy)

/-- Dropping from the front stops at a block whose first entry stays. -/
theorem dropWhile_block {α : Type} (p : α → Bool) (front back : List α) (x : α) (xs : List α)
    (hx : p x=false) :
    (front++(x::xs++back)).dropWhile p=front.dropWhile p++(x::xs++back) := by
  rw [List.dropWhile_append,List.cons_append,List.dropWhile_cons_of_neg (by simp [hx])]
  split_ifs with hempty
  · rw [List.isEmpty_iff.mp hempty,List.nil_append]
  · rfl

theorem length_dropWhile_append_le {α : Type} (p : α → Bool) (front back : List α) :
    ((front++back).dropWhile p).length≤(front.dropWhile p).length+back.length := by
  rw [List.dropWhile_append]
  split_ifs
  · exact (List.dropWhile_suffix p).length_le.trans (Nat.le_add_left ..)
  · rw [List.length_append]

theorem take_left_of {α : Type} (M Z : List α) (k : Nat) (hZ : Z=[] ∨ k≤M.length) :
    (M++Z).take k=M.take k := by
  rcases hZ with rfl|hk
  · rw [List.append_nil]
  · exact List.take_append_of_le_length hk

/-- Cutting positions `l..h` out of three blocks leaves the front of the middle one, unless `l`
lies strictly inside the first. -/
theorem middle_eq {α : Type} (A M Z : List α) (p l h : Nat) (hlh : l≤h) (hA : A=[] ∨ p<l)
    (hM : M=[] ∨ l≤p+A.length) (hZ : Z=[] ∨ h≤p+A.length+M.length)
    (hok : l=h ∨ ¬(p<l ∧ l<p+A.length)) :
    ((A++M++Z).take (h-p)).drop (l-p)=M.take (h-(p+A.length)) := by
  rcases hok with rfl|hok
  · rw [List.drop_eq_nil_of_le (by rw [List.length_take]; omega)]
    rcases hM with rfl|hM
    · rw [List.take_nil]
    · rw [Nat.sub_eq_zero_of_le hM,List.take_zero]
  rcases hM with rfl|hM
  · -- Nothing starts in the range, so the third block is empty or begins at `l=h`.
    rw [List.take_nil,List.append_nil]
    have hZ' : Z.length=0 ∨ h≤p+A.length := hZ.imp (congrArg List.length) id
    have hA' : A.length=0 ∨ p<l := hA.imp_left (congrArg List.length)
    apply List.drop_eq_nil_of_le
    rw [List.length_take,List.length_append]
    omega
  rcases hA with rfl|hpl
  · rw [List.length_nil,Nat.add_zero] at *
    rw [Nat.sub_eq_zero_of_le hM,List.drop_zero,List.nil_append]
    exact take_left_of M Z _ (hZ.imp_right (fun h => by omega))
  · rw [show l-p=A.length by omega,show h-p=A.length+(h-(p+A.length)) by omega,
      List.append_assoc,List.take_length_add_append,List.drop_left' rfl]
    exact take_left_of M Z _ (hZ.imp_right (fun h => by omega))

/-- Places at which the entries of another list stand are places of the list. -/
theorem lt_of_map_getElem? {α : Type} (xs ys : List α) (ps : List Nat) (p : Nat)
    (h : ps.map (fun p => xs[p]?)=ys.map some) (hp : p∈ps) : p<xs.length := by
  have hmem : xs[p]?∈ys.map some := by
    rw [← h]
    exact List.mem_map_of_mem hp
  obtain ⟨y,-,hy⟩ := List.mem_map.mp hmem
  exact (List.getElem?_eq_some_iff.mp hy.symm).1

theorem map_getElem?_append {α : Type} (xs ys zs : List α) (ps : List Nat)
    (h : ps.map (fun p => xs[p]?)=ys.map some) :
    ps.map (fun p => (xs++zs)[p]?)=ys.map some := by
  rw [← h]
  refine List.map_congr_left ?_
  intro p hp
  exact List.getElem?_append_left (lt_of_map_getElem? xs ys ps p h hp)

/-- The last entry of a list that does not fall is at least what it started from. -/
theorem le_getLastD (b : Nat) (l : List Nat) (h : (b::l).Pairwise (·≤·)) : b≤l.getLastD b := by
  cases l with
  | nil => exact le_rfl
  | cons a as =>
      have hmem : (a::as).getLastD b∈a::as := by
        rw [List.getLastD_cons]
        exact List.getLastD_mem_cons ..
      exact (List.pairwise_cons.mp h).1 _ hmem

end BlueRdma.Lists
