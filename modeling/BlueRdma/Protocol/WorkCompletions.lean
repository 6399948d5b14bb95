import BlueRdma.Verbs.Cq

namespace BlueRdma
open BlueRdmaCore

/-- The fields of two entries by which a caller tells a work completion. -/
def IbvWc.Same (a b : IbvWc) : Prop := a.wrId=b.wrId ∧ a.opcode=b.opcode ∧ a.status=b.status

/-- Every kind but one writes all of them. -/
theorem Completion.writeTo_same_iff (c : Completion) (a b : IbvWc) :
    (c.writeTo a).Same (c.writeTo b) ↔ ∀ imm,c=.recvRdmaWithImm imm → a.wrId=b.wrId := by
  cases c with
  | recvRdmaWithImm imm => simp [writeTo,IbvWc.Same]
  | recv wrId imm => cases imm <;> simp [writeTo,IbvWc.Same]
  | _ => simp [writeTo,IbvWc.Same]

/-- The completions a call takes. -/
def CompletionQueueTable.taken (t : CompletionQueueTable) (handle : UInt32) (n : Int32) :
    List Completion :=
  (t.queued handle).take n.toInt.toNat

section
variable (t : CompletionQueueTable) (handle : UInt32) (n : Int32) (hn : 0≤n)
include hn

theorem pollCq_limit : (n.toInt%2^64).toNat=n.toInt.toNat ∧ n.toInt.toNat<2^31 := by
  have hpos : 0≤n.toInt := Int32.le_iff_toInt_le.mp hn
  have hlt := n.toInt_lt
  omega

/-- The number returned is that of the completions taken. -/
theorem pollCq_num (wc : Nat → IbvWc) : (pollCq t handle n wc).num.toInt=
    (t.taken handle n).length := by
  obtain ⟨hlimit,hlt⟩ := pollCq_limit n hn
  have hnum : (pollCq t handle n wc).num=Int32.ofNat (t.taken handle n).length := by
    rw [pollCq,hlimit,CompletionQueueTable.taken,← HwDeviceCtx.pollCq_completions]
  have hlen : (t.taken handle n).length≤n.toInt.toNat := List.length_take_le ..
  rw [hnum,Int32.toInt_ofNat_of_lt (by omega)]

theorem pollCq_wc (wc : Nat → IbvWc) (i : Nat) : (pollCq t handle n wc).wc i=
    ((t.taken handle n)[i]?).elim (wc i) (fun c => c.writeTo (wc i)) := by
  obtain ⟨hlimit,-⟩ := pollCq_limit n hn
  have hwc : (pollCq t handle n wc).wc=writeAll wc 0 (t.taken handle n) := by
    rw [pollCq,hlimit,CompletionQueueTable.taken,← HwDeviceCtx.pollCq_completions]
  rw [hwc,writeAll_apply,if_neg (Nat.not_lt_zero i),Nat.sub_zero]

end

/-- Two calls that differ only in the old contents of the caller's array return the same number
and leave the entries behind it alone. The entries before it agree exactly if, wherever a write
with immediate data is completed, the old identifiers do. -/
theorem poll_cq_no_leak_iff (t : CompletionQueueTable) (handle : UInt32) (n : Int32) (hn : 0≤n)
    (wc wc' : Nat → IbvWc) :
    let r := pollCq t handle n wc
    let r' := pollCq t handle n wc'
    r.num=r'.num ∧ r.queues=r'.queues ∧
    (∀ i : Nat,r.num.toInt ≤ i → r.wc i=wc i ∧ r'.wc i=wc' i) ∧
    ((∀ i : Nat,i < r.num.toInt → (r.wc i).Same (r'.wc i)) ↔
      ∀ i : Nat,i < r.num.toInt → ∀ imm,(t.queued handle)[i]?=some (.recvRdmaWithImm imm) →
        (wc i).wrId=(wc' i).wrId) := by
  have hnum := pollCq_num t handle n hn wc
  refine ⟨rfl,rfl,?_,?_⟩
  · intro i hi
    have hnone : (t.taken handle n)[i]?=none := List.getElem?_eq_none (by omega)
    rw [pollCq_wc t handle n hn,pollCq_wc t handle n hn,hnone]
    exact ⟨rfl,rfl⟩
  · refine forall_congr' fun i => forall_congr' fun hi => ?_
    have hlt : i<(t.taken handle n).length := by omega
    have hsome : (t.queued handle)[i]?=some (t.taken handle n)[i] := by
      have hlen : (t.taken handle n).length≤n.toInt.toNat := List.length_take_le ..
      rw [← List.getElem?_eq_getElem hlt,CompletionQueueTable.taken,
        List.getElem?_take_of_lt (by omega)]
    rw [pollCq_wc t handle n hn,pollCq_wc t handle n hn,List.getElem?_eq_getElem hlt,hsome]
    simp only [Option.elim_some,Completion.writeTo_same_iff,Option.some.injEq]

/-- An array whose entries all name the given request. -/
def stale (wrId : UInt64) : Nat → IbvWc := fun _ => ⟨wrId,5,6,7⟩

/-- A Send and a receive have completed. -/
def plainQueue : CompletionQueueTable := fun _ => [.send 1,.recv 2 none]

theorem poll_cq_no_leak_iff_recv : (0 : Int32)≤4 ∧
    ((pollCq plainQueue 0 4 (stale 8)).wc 1).Same ((pollCq plainQueue 0 4 (stale 9)).wc 1) := by
  refine ⟨by decide,(poll_cq_no_leak_iff plainQueue 0 4 (by decide) _ _).2.2.2.mpr ?_ 1 ?_⟩
  · intro i _ imm himm
    have hmem : Completion.recvRdmaWithImm imm∈[.send 1,.recv 2 none] := List.mem_of_getElem? himm
    simp at hmem
  · decide

/-- A write with immediate data has completed: the entry keeps whatever request it named. -/
theorem write_with_imm_leaks :
    let t : CompletionQueueTable := fun _ => [.recvRdmaWithImm 3]
    (pollCq t 0 1 (stale 8)).num=1 ∧ (pollCq t 0 1 (stale 9)).num=1 ∧
    ((pollCq t 0 1 (stale 8)).wc 0).wrId=8 ∧ ((pollCq t 0 1 (stale 9)).wc 0).wrId=9 := by
  decide

end BlueRdma
