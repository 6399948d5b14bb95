import Mathlib.Tactic

namespace BlueRdma.Fifo
variable {α : Type}

inductive Request (α : Type)
  | push (value : α)
  | pop
  | popTwo
  deriving DecidableEq

inductive Answer (α β : Type)
  | pushed (ok : Bool)
  | popped (value : Option α)
  | poppedTwo (first : Option α) (next : Option β)
  deriving DecidableEq

def Request.map {α β : Type} (f : α → β) : Request α → Request β
  | .push value => .push (f value)
  | .pop => .pop
  | .popTwo => .popTwo

def Answer.map {α β γ δ : Type} (f : α → γ) (g : β → δ) : Answer α β → Answer γ δ
  | .pushed ok => .pushed ok
  | .popped value => .popped (value.map f)
  | .poppedTwo first next => .poppedTwo (first.map f) (next.map g)

/-- An entry with `hasNext` only leaves together with the one behind it. -/
def popTwo (hasNext : α → Bool) : List α → List α × Option α × Option α
  | [] => ([],none,none)
  | [x] => if hasNext x then ([x],none,none) else ([],some x,none)
  | x::y::l => if hasNext x then (l,some x,some y) else (y::l,some x,none)

def step (capacity : Nat) (hasNext : α → Bool) (l : List α) : Request α → List α × Answer α α
  | .push value =>
      if l.length=capacity then (l,.pushed false) else (l++[value],.pushed true)
  | .pop => (l.tail,.popped l.head?)
  | .popTwo => ((popTwo hasNext l).1,.poppedTwo (popTwo hasNext l).2.1 (popTwo hasNext l).2.2)

variable {hasNext : α → Bool} {l : List α}

theorem step_push_room (capacity : Nat) (h : l.length < capacity) (value : α) :
    step capacity hasNext l (.push value)=(l++[value],.pushed true) := if_neg h.ne

theorem step_push_full (capacity : Nat) (h : l.length=capacity) (value : α) :
    step capacity hasNext l (.push value)=(l,.pushed false) := if_pos h

/-- Taking entries leaves a part of the list. -/
theorem mem_popTwo (x : α) (h : x∈(popTwo hasNext l).1) : x∈l := by
  rcases l with _|⟨y,_|⟨z,l⟩⟩
  · cases h
  · simp only [popTwo] at h
    split_ifs at h
    · exact h
    · cases h
  · simp only [popTwo] at h
    split_ifs at h
    · exact List.mem_cons_of_mem y (List.mem_cons_of_mem z h)
    · exact List.mem_cons_of_mem y h

end BlueRdma.Fifo
