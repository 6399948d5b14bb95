import BlueRdma.Framework.Run
import BlueRdma.Workers.QpTimeout

namespace BlueRdma
namespace AckTimers
open QpAckTimeoutWorker

/-- The timeout worker takes a task, or its maintenance looks at every timer. -/
inductive Label
  | task (now : Nat) (qpn : UInt32) (t : AckTimeoutTask)
  | maintainance (now : Fin maxQpCnt → Nat)

/-- The tables of the worker while it is alive, and the QPs for which a timer fired, each with
its count at that moment. -/
structure State where
  table : Option (QpTable QpAckTimeout)
  fired : List (Fin maxQpCnt × UInt64) := []

def init (config : AckTimeoutConfig) : State := {table := some (QpTable.newWith (new config))}

def step (s : State) (l : Label) : State :=
  match s.table with
  | none => s
  | some t => match l with
    | .task now qpn task => {s with table := some (processTask now t qpn task)}
    | .maintainance now =>
      let r := maintainAll now (List.finRange maxQpCnt) t
      let fired := (r.timedOut++r.exhausted.toList).map (fun i => (i,(t i).outstandingAckReqCnt))
      ⟨if r.exhausted.isSome then none else some r.table,s.fired++fired⟩

def run (config : AckTimeoutConfig) (ls : List Label) : State := Run.run step (init config) ls

/-- A report of the device arrives only while the QP waits for an acknowledgement or has no
timer; the count neither underflows nor overflows. -/
def TaskAllowed (w : QpAckTimeout) : AckTimeoutTask → Prop
  | .newAckReq => w.outstandingAckReqCnt.toNat+1<2^64
  | .recvMeta => 0<w.outstandingAckReqCnt.toNat ∨ w.timer.timeoutInterval=none
  | .ack => 0<w.outstandingAckReqCnt.toNat

instance (w : QpAckTimeout) (t : AckTimeoutTask) : Decidable (TaskAllowed w t) :=
  match t with
  | .newAckReq => inferInstanceAs (Decidable (_<_))
  | .recvMeta => inferInstanceAs (Decidable (_ ∨ _))
  | .ack => inferInstanceAs (Decidable (_<_))

def Allowed (s : State) : Label → Prop
  | .task _ qpn t => ∀ table∈s.table,∀ w∈table.getQp qpn,TaskAllowed w t
  | .maintainance _ => True

instance (s : State) (l : Label) : Decidable (Allowed s l) :=
  match l with
  | .task _ _ _ =>
      have := @Option.decidableForallMem
      inferInstanceAs (Decidable (∀ table∈s.table,∀ w∈QpTable.getQp table _,TaskAllowed w _))
  | .maintainance _ => inferInstanceAs (Decidable True)

/-- A timer that can fire belongs to a QP that waits. -/
def Waits (w : QpAckTimeout) : Prop := Running w → 0<w.outstandingAckReqCnt.toNat

theorem process_waits (now : Nat) (w : QpAckTimeout) (t : AckTimeoutTask)
    (ht : TaskAllowed w t) : ∀ w'∈(process now w t).next,Waits w' := by
  intro w' hw'
  cases t with
  | newAckReq =>
      obtain rfl := Option.some.inj hw'
      intro _
      rw [TaskAllowed] at ht
      rw [UInt64.toNat_add,UInt64.toNat_one,Nat.mod_eq_of_lt ht]
      exact Nat.succ_pos _
  | recvMeta =>
      obtain rfl := Option.some.inj hw'
      rintro ⟨-,hrun⟩
      rcases ht with ht|ht
      · exact ht
      · rw [TransportTimer.restart,ht] at hrun
        cases hrun
  | ack =>
      obtain rfl := Option.some.inj hw'
      rintro ⟨hstart,hrun⟩
      dsimp only at hstart hrun ⊢
      by_cases hz : w.outstandingAckReqCnt-1=0
      · rw [if_pos hz] at hstart
        cases hstart
      · refine Nat.pos_of_ne_zero (fun h0 => hz ?_)
        rw [← UInt64.toNat_inj,h0]
        rfl

/-- Maintenance of a table whose running timers all wait fires for waiting QPs only. -/
theorem maintainAll_waits (now : Fin maxQpCnt → Nat) (is : List (Fin maxQpCnt))
    (t0 t : QpTable QpAckTimeout) (h : ∀ i,Waits (t i) ∧
      (t i).outstandingAckReqCnt=(t0 i).outstandingAckReqCnt) :
    (∀ i∈(maintainAll now is t).timedOut,0<(t0 i).outstandingAckReqCnt.toNat) ∧
    (∀ i∈(maintainAll now is t).exhausted,0<(t0 i).outstandingAckReqCnt.toNat) ∧
    ∀ i,Waits ((maintainAll now is t).table i) := by
  induction is generalizing t with
  | nil => exact ⟨by simp [maintainAll],by simp [maintainAll],fun i => (h i).1⟩
  | cons j is ih =>
      obtain ⟨hwaits,hcount⟩ := h j
      have hfires := checkTimeout_running (now j) (t j)
      rw [maintainAll]
      rcases hc : (t j).timer.checkTimeout (now j) with ⟨result,timer⟩
      rw [hc] at hfires
      cases result with
      | ok => exact ih t h
      | timeout =>
          have hpos := hwaits (hfires TimerResult.noConfusion)
          have hnext : ∀ i,Waits (Function.update t j {t j with timer := timer} i) ∧
              (Function.update t j {t j with timer := timer} i).outstandingAckReqCnt=
                (t0 i).outstandingAckReqCnt := by
            intro i
            by_cases hi : i=j
            · subst hi
              rw [Function.update_self]
              exact ⟨fun _ => hpos,hcount⟩
            · rw [Function.update_of_ne hi]
              exact h i
          obtain ⟨htimed,hexhausted,htable⟩ := ih _ hnext
          refine ⟨?_,hexhausted,htable⟩
          intro i hi
          rcases List.mem_cons.mp hi with rfl|hi
          · rw [← hcount]
            exact hpos
          · exact htimed i hi
      | retryLimitExceeded =>
          refine ⟨by simp,?_,fun i => (h i).1⟩
          intro i hi
          obtain rfl := Option.some.inj hi
          rw [← hcount]
          exact hwaits (hfires TimerResult.noConfusion)

structure Inv (s : State) : Prop where
  waits : ∀ t∈s.table,∀ i,Waits (t i)
  fired : ∀ e∈s.fired,0<e.2.toNat

theorem step_inv (s : State) (l : Label) (hl : Allowed s l) (h : Inv s) : Inv (step s l) := by
  rw [step]
  rcases ht : s.table with _|t
  · exact h
  have hwaits := h.waits t ht
  cases l with
  | task now qpn task =>
      refine ⟨?_,h.fired⟩
      intro t' ht'
      obtain rfl := Option.some.inj ht'
      refine QpTable.mapQpMut_forall t qpn _ (fun _ => Waits) hwaits ?_
      intro i hi hw
      have hallowed := hl t ht (t i) (t.getQp_of_index _ i hi)
      rcases hnext : (process now (t i) task).next with _|w'
      · exact hw
      · exact process_waits now (t i) task hallowed w' hnext
  | maintainance now =>
      obtain ⟨htimed,hexhausted,htable⟩ := maintainAll_waits now (List.finRange maxQpCnt) t t
        (fun i => ⟨hwaits i,rfl⟩)
      refine ⟨?_,?_⟩
      · intro t' ht'
        dsimp only at ht'
        split_ifs at ht'
        · cases ht'
        · obtain rfl := Option.some.inj ht'
          exact htable
      · intro e he
        rcases List.mem_append.mp he with he|he
        · exact h.fired e he
        · obtain ⟨i,hi,rfl⟩ := List.mem_map.mp he
          rcases List.mem_append.mp hi with hi|hi
          · exact htimed i hi
          · exact hexhausted i (Option.mem_toList.mp hi)

theorem init_inv (config : AckTimeoutConfig) : Inv (init config) := by
  refine ⟨?_,by simp [init]⟩
  intro t ht i
  obtain rfl := Option.some.inj ht
  rintro ⟨hrun,-⟩
  cases hrun

end AckTimers

open AckTimers in
/-- In a run in which reports reach the timeout worker only while the QP waits for an
acknowledgement, a timer that fires or runs out of retries is that of a waiting QP. -/
theorem timers_fire_while_waiting (config : AckTimeoutConfig) (ls : List AckTimers.Label)
    (hls : Run.Along AckTimers.step AckTimers.Allowed (AckTimers.init config) ls) :
    ∀ e∈(AckTimers.run config ls).fired,0<e.2.toNat :=
  (Run.run_inv AckTimers.step AckTimers.Allowed AckTimers.Inv AckTimers.step_inv _ ls hls
    (AckTimers.init_inv config)).fired

open AckTimers in
/-- A message is sent, a report arrives, and the acknowledgement stays away. -/
theorem timers_fire_while_waiting_lost_ack :
    (AckTimers.run ⟨14,1⟩ [.task 0 0x100 .newAckReq,.task 100 0x100 .recvMeta,
      .maintainance (fun _ => 2^27)]).fired=[(⟨1,by decide⟩,1)] ∧
    ∀ e∈(AckTimers.run ⟨14,1⟩ [.task 0 0x100 .newAckReq,.task 100 0x100 .recvMeta,
      .maintainance (fun _ => 2^27)]).fired,0<e.2.toNat :=
  ⟨by decide +kernel,timers_fire_while_waiting _ _ (by decide +kernel)⟩

open AckTimers in
/-- A QP that has sent nothing receives one packet. Its timer runs out and asks for everything to
be sent again, and one interval later it has no retries left and takes the thread down. -/
theorem receiving_qp_exhausts_retries :
    (AckTimers.run ⟨14,1⟩ [.task 0 0x100 .recvMeta,.maintainance (fun _ => 2^26)]).fired=
      [(⟨1,by decide⟩,0)] ∧
    (AckTimers.run ⟨14,1⟩ [.task 0 0x100 .recvMeta,.maintainance (fun _ => 2^26),
      .maintainance (fun _ => 2^27)]).fired=[(⟨1,by decide⟩,0),(⟨1,by decide⟩,0)] ∧
    (AckTimers.run ⟨14,1⟩ [.task 0 0x100 .recvMeta,.maintainance (fun _ => 2^26),
      .maintainance (fun _ => 2^27)]).table.isNone=true := by
  decide +kernel

end BlueRdma
