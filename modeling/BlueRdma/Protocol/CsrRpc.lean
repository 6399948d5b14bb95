import BlueRdma.Csr.Emulated
import BlueRdma.Framework.Run

namespace BlueRdma.Csr

/-- The reads among some calls: the caller and its register. -/
def reads (calls : List (Nat × RpcCall)) : List (Nat × Nat) :=
  calls.filterMap fun
    | (t,.read addr) => some (t,addr)
    | (_,.write _ _) => none

def RpcReturn.caller (x : RpcReturn) : Nat × Nat := (x.thread,x.addr)

theorem reads_concat (calls : List (Nat × RpcCall)) (t : Nat) (c : RpcCall) :
    reads (calls++[(t,c)])=reads calls++(match c with
      | .read addr => [(t,addr)]
      | .write _ _ => []) := by
  rw [reads,List.filterMap_append]
  cases c <;> rfl

section Simulator
variable {σ : Type} (handle : σ → CsrAccessRpcMessage → σ × Option CsrAccessRpcMessage)

/-- The simulator answers every read with one message and no write. -/
def AnswersReads : Prop :=
  ∀ q,(∀ addr,(handle q (RpcCall.read addr).message).2.isSome=true) ∧
    ∀ addr data,(handle q (RpcCall.write addr data).message).2=none

/-- What the simulator answers to each call when it is handed them in the order they were sent. -/
def answers (q : σ) (calls : List (Nat × RpcCall)) : List (Option CsrAccessRpcMessage) :=
  (Run.serve handle q (calls.map (·.2.message))).2

/-- Each read together with the answer to itself. -/
def ownAnswers (q : σ) (calls : List (Nat × RpcCall)) : List RpcReturn :=
  (calls.zip (answers handle q calls)).filterMap fun
    | ((t,.read addr),some m) => some ⟨t,addr,.ok m.value⟩
    | _ => none

/-- No datagram is lost, repeated or overtaken, in either direction: what has arrived is what the
simulator answered first. -/
def InOrder (q : σ) (s : RpcSystem) : Prop :=
  s.arrived<+:((answers handle q s.sent).filterMap id).map .ok

/-- The reads of the calls are asked and answered one by one. -/
theorem ownAnswers_spec (h : AnswersReads handle) (q : σ) (calls : List (Nat × RpcCall)) :
    (ownAnswers handle q calls).map RpcReturn.caller=reads calls ∧
    (ownAnswers handle q calls).map RpcReturn.result=
      ((answers handle q calls).filterMap id).map (fun m => .ok m.value) := by
  induction calls generalizing q with
  | nil => exact ⟨rfl,rfl⟩
  | cons x calls ih =>
      obtain ⟨t,c⟩ := x
      obtain ⟨hcaller,hresult⟩ := ih (handle q c.message).1
      have hcons : answers handle q ((t,c)::calls)=
          (handle q c.message).2::answers handle (handle q c.message).1 calls := rfl
      rw [ownAnswers,hcons,List.zip_cons_cons]
      cases c with
      | read addr =>
          obtain ⟨m,hm⟩ := Option.isSome_iff_exists.mp ((h q).1 addr)
          rw [hm]
          exact ⟨congrArg (List.cons _) hcaller,congrArg (List.cons _) hresult⟩
      | write addr data =>
          rw [(h q).2 addr data]
          exact ⟨hcaller,hresult⟩

/-- Returns that agree with the answers in callers and in results are those answers. -/
theorem prefix_of_caller_of_result (xs ys : List RpcReturn)
    (hcaller : xs.map RpcReturn.caller<+:ys.map RpcReturn.caller)
    (hresult : xs.map RpcReturn.result<+:ys.map RpcReturn.result) : xs<+:ys := by
  rw [List.prefix_iff_eq_take,List.length_map,← List.map_take] at hcaller hresult
  rw [List.prefix_iff_eq_take]
  generalize ys.take xs.length=zs at hcaller hresult
  clear ys
  induction xs generalizing zs with
  | nil => exact (List.map_eq_nil_iff.mp hcaller.symm).symm
  | cons x xs ih =>
      cases zs with
      | nil => cases hcaller
      | cons z zs =>
          rw [List.map_cons,List.map_cons,List.cons.injEq] at hcaller hresult
          rw [ih zs hcaller.2 hresult.2]
          obtain ⟨t,addr,r⟩ := x
          obtain ⟨t',addr',r'⟩ := z
          obtain ⟨rfl,rfl⟩ : t=t' ∧ addr=addr' := Prod.mk.inj hcaller.1
          obtain rfl : r=r' := hresult.1
          rfl

end Simulator

namespace RpcSystem

/-- Every datagram that has arrived was taken by a read that returned, in the order of both, or is
still there. -/
def Taken (s : RpcSystem) : Prop :=
  s.arrived.map Datagram.response=s.returned.map RpcReturn.result++s.inbox.map Datagram.response

theorem recv_taken (s : RpcSystem) (t : Nat) (h : Taken s) : Taken (s.recv t) := by
  unfold recv
  split
  · rename_i addr d rest hwait hinbox
    rw [Taken,hinbox] at h
    rw [Taken,h,List.map_append,List.map_cons,List.append_assoc]
    rfl
  · exact h

theorem step_taken (s : RpcSystem) (l : RpcStep) (h : Taken s) : Taken (s.step l) := by
  cases l with
  | call t c io =>
      rw [step]
      split_ifs <;> exact h
  | arrive d =>
      rw [Taken] at h
      rw [Taken,step,List.map_append,List.map_append,h,List.append_assoc]
  | recv t => exact recv_taken s t h
  | recvFails t => exact h

/-- A read is only sent while no other thread waits for an answer, and `recv_from` does not fail. -/
def Alone (s : RpcSystem) : RpcStep → Prop
  | .call _ (.read _) _ => s.waiting=[]
  | .recvFails _ => False
  | _ => True

/-- At most one read is open, and the reads returned are those sent before it. -/
structure OneOpen (s : RpcSystem) : Prop where
  few : s.waiting.length≤1
  matched : reads s.sent=s.returned.map RpcReturn.caller++s.waiting

theorem recv_oneOpen (s : RpcSystem) (t : Nat) (h : OneOpen s) : OneOpen (s.recv t) := by
  unfold recv
  split
  · rename_i addr d rest hwait _
    -- the waiting thread is the only one
    obtain ⟨u,a,hone⟩ : ∃ u a,s.waiting=[(u,a)] := by
      match hw : s.waiting,h.few with
      | [],_ => rw [hw] at hwait; cases hwait
      | [(u,a)],_ => exact ⟨u,a,rfl⟩
    rw [hone,List.lookup_cons] at hwait
    have hmatched := h.matched
    by_cases htu : t=u
    · subst htu
      simp only [beq_self_eq_true] at hwait
      cases hwait
      refine ⟨by simp [hone],?_⟩
      simp [hmatched,hone,RpcReturn.caller]
    · simp [beq_false_of_ne htu] at hwait
  · exact h

theorem step_oneOpen (s : RpcSystem) (l : RpcStep) (hl : s.Alone l) (h : OneOpen s) :
    OneOpen (s.step l) := by
  cases l with
  | call t c io =>
      rw [step]
      split_ifs
      · cases c with
        | read addr =>
            have hnone : s.waiting=[] := hl
            refine ⟨by simp [send,hnone],?_⟩
            simp [send,reads_concat,h.matched,hnone]
        | write addr data =>
            refine ⟨h.few,?_⟩
            simp [send,reads_concat,h.matched]
      · exact h
  | arrive d => exact ⟨h.few,h.matched⟩
  | recv t => exact recv_oneOpen s t h
  | recvFails t => exact hl.elim

/-- In every interleaving of the threads, whatever network and simulator do: each datagram that
arrives is taken by one read, in the order they arrive, and its value is returned whatever register
it is about. If no datagram is lost, repeated or overtaken, the k-th read that returns gets the k-th
answer of the simulator, whoever asked for it. Every read gets the answer to itself if the simulator
answers each of them once, reads are only sent while no other one is open and no `recv_from` fails. -/
theorem reads_return_in_order {σ : Type}
    (handle : σ → CsrAccessRpcMessage → σ × Option CsrAccessRpcMessage) (q : σ)
    (ls : List RpcStep) :
    let s := Run.run step init ls
    Taken s ∧
    (InOrder handle q s → s.returned.map RpcReturn.result<+:
      ((answers handle q s.sent).filterMap id).map (fun m => .ok m.value)) ∧
    (InOrder handle q s → AnswersReads handle → Run.Along step Alone init ls →
      s.returned<+:ownAnswers handle q s.sent) := by
  intro s
  have htaken : Taken s := Run.run_inv_all step Taken step_taken _ ls rfl
  have hresult (h : InOrder handle q s) : s.returned.map RpcReturn.result<+:
      ((answers handle q s.sent).filterMap id).map (fun m => .ok m.value) := by
    have hmap := h.map Datagram.response
    rw [htaken,List.map_map] at hmap
    exact (List.prefix_append _ _).trans hmap
  refine ⟨htaken,hresult,fun horder hanswers hls => ?_⟩
  have hone : OneOpen s :=
    Run.run_inv step Alone OneOpen step_oneOpen _ ls hls ⟨Nat.zero_le 1,rfl⟩
  obtain ⟨hcallers,hresults⟩ := ownAnswers_spec handle hanswers q s.sent
  refine prefix_of_caller_of_result _ _ ?_ ?_
  · rw [hcallers]
    exact ⟨_,hone.matched.symm⟩
  · rw [hresults]
    exact hresult horder

/-- A simulator that keeps registers. -/
def registerFile (regs : Bar) (m : CsrAccessRpcMessage) : Bar × Option CsrAccessRpcMessage :=
  if m.isWrite then (Function.update regs m.addr m.value,none)
  else (regs,some ⟨false,m.addr,regs m.addr⟩)

theorem registerFile_answersReads : AnswersReads registerFile :=
  fun _ => ⟨fun _ => rfl,fun _ _ => rfl⟩

/-- Two threads wait at once and take each other's answers. A thread whose `recv_from` fails leaves
its answer to the next reader. Read one after the other, each register is returned to the thread that
asked for it. -/
theorem reads_return_in_order_crossed :
    let regs : Bar := fun addr => if addr=0x00C then 7 else 9
    let crossed : List RpcStep := [.call 0 (.read 0x00C) (.ok ()),.call 1 (.read 0x118) (.ok ()),
      .arrive (.ok ⟨false,0x00C,7⟩),.arrive (.ok ⟨false,0x118,9⟩),.recv 1,.recv 0]
    let late : List RpcStep := [.call 0 (.read 0x00C) (.ok ()),.recvFails 0,
      .arrive (.ok ⟨false,0x00C,7⟩),.call 1 (.read 0x118) (.ok ()),.recv 1]
    let alone : List RpcStep := [.call 0 (.read 0x00C) (.ok ()),.arrive (.ok ⟨false,0x00C,7⟩),
      .recv 0,.call 1 (.read 0x118) (.ok ()),.arrive (.ok ⟨false,0x118,9⟩),.recv 1]
    (Run.run step init crossed).returned=[⟨1,0x118,.ok 7⟩,⟨0,0x00C,.ok 9⟩] ∧
    (Run.run step init late).returned=[⟨1,0x118,.ok 7⟩] ∧
    (Run.run step init alone).returned.length=2 ∧
    (Run.run step init alone).returned<+:
      ownAnswers registerFile regs (Run.run step init alone).sent := by
  refine ⟨by decide,by decide,by decide,?_⟩
  exact (reads_return_in_order registerFile (fun addr => if addr=0x00C then 7 else 9) _).2.2
    (List.prefix_refl _) registerFile_answersReads ⟨rfl,trivial,trivial,rfl,trivial,trivial,trivial⟩

end RpcSystem

end BlueRdma.Csr
