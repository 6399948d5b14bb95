import BlueRdma.Workers.Completion

namespace BlueRdma

/-- The `ibv_wc_opcode` of a completion. -/
def Completion.opcode : Completion → UInt32
  | .send _ => 0
  | .rdmaWrite _ => 1
  | .rdmaRead _ => 2
  | .recv _ _ => 128
  | .recvRdmaWithImm _ => 129

/-- `IBV_WC_SUCCESS`. -/
def ibvWcSuccess : UInt32 := 0

/-- The fields of an `ibv_wc` that the driver writes. -/
structure IbvWc where
  wrId : UInt64
  status : UInt32
  opcode : UInt32
  immData : UInt32
  deriving DecidableEq

/-- The queues behind the completion queue handles, oldest completion first. -/
abbrev CompletionQueueTable := Fin maxCqCnt → List Completion

namespace CompletionQueueTable

/-- The completions queued behind a handle; there are none behind one that does not exist. -/
def queued (t : CompletionQueueTable) (handle : UInt32) : List Completion :=
  if h : handle.toNat < maxCqCnt then t ⟨handle.toNat,h⟩ else []

end CompletionQueueTable

namespace HwDeviceCtx

/-- Pops until the queue is empty or enough completions were taken. -/
def popUpTo : Nat → List Completion → List Completion × List Completion
  | 0,queue => ([],queue)
  | _+1,[] => ([],[])
  | n+1,c::queue => (c::(popUpTo n queue).1,(popUpTo n queue).2)

def pollCq (t : CompletionQueueTable) (handle : UInt32) (maxNumEntries : Nat) :
    List Completion × CompletionQueueTable :=
  if h : handle.toNat < maxCqCnt then
    let popped := popUpTo maxNumEntries (t ⟨handle.toNat,h⟩)
    (popped.1,Function.update t ⟨handle.toNat,h⟩ popped.2)
  else ([],t)

theorem popUpTo_eq (n : Nat) (queue : List Completion) :
    popUpTo n queue=(queue.take n,queue.drop n) := by
  induction n generalizing queue with
  | zero => rfl
  | succ n ih =>
      cases queue with
      | nil => rfl
      | cons c queue => rw [popUpTo,ih,List.take_succ_cons,List.drop_succ_cons]

theorem pollCq_completions (t : CompletionQueueTable) (handle : UInt32) (n : Nat) :
    (pollCq t handle n).1=(t.queued handle).take n := by
  rw [pollCq,CompletionQueueTable.queued]
  split_ifs
  · rw [popUpTo_eq]
  · exact List.take_nil.symm

end HwDeviceCtx

/-- What one completion writes into its entry of the caller's array. -/
def Completion.writeTo (c : Completion) (wc : IbvWc) : IbvWc :=
  let wc := match c with
    | .send wrId | .rdmaWrite wrId | .rdmaRead wrId => {wc with wrId := wrId}
    | .recv wrId none => {wc with wrId := wrId}
    | .recv wrId (some imm) => {wc with wrId := wrId,immData := imm}
    | .recvRdmaWithImm imm => {wc with immData := imm}
  {wc with opcode := c.opcode,status := ibvWcSuccess}

namespace BlueRdmaCore

/-- What a call returns, the caller's array, and the queues after it. -/
structure Polled where
  num : Int32
  wc : Nat → IbvWc
  queues : CompletionQueueTable

/-- The loop over the completions, from entry `i` of the array on. -/
def writeAll (wc : Nat → IbvWc) : Nat → List Completion → Nat → IbvWc
  | _,[] => wc
  | i,c::cs => writeAll (Function.update wc i (c.writeTo (wc i))) (i+1) cs

/-- `num_entries as usize` of a negative number is a large one. -/
def pollCq (t : CompletionQueueTable) (handle : UInt32) (numEntries : Int32) (wc : Nat → IbvWc) :
    Polled :=
  let (completions,queues) := HwDeviceCtx.pollCq t handle (numEntries.toInt%2^64).toNat
  ⟨Int32.ofNat completions.length,writeAll wc 0 completions,queues⟩

theorem writeAll_apply (wc : Nat → IbvWc) (i : Nat) (cs : List Completion) (j : Nat) :
    writeAll wc i cs j=
      if j < i then wc j else (cs[j-i]?).elim (wc j) (fun c => c.writeTo (wc j)) := by
  induction cs generalizing wc i with
  | nil =>
      rw [writeAll,List.getElem?_nil]
      split_ifs <;> rfl
  | cons c cs ih =>
      rw [writeAll,ih]
      rcases Nat.lt_trichotomy j i with hlt|rfl|hgt
      · rw [if_pos (by omega),if_pos hlt,Function.update_of_ne (by omega)]
      · rw [if_pos (by omega),if_neg (by omega),Nat.sub_self,Function.update_self]
        rfl
      · rw [if_neg (by omega),if_neg (by omega),Function.update_of_ne (by omega),
          show j-i=(j-(i+1))+1 by omega,List.getElem?_cons_succ]

end BlueRdmaCore
end BlueRdma
