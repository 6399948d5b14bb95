import BlueRdma.RdmaUtils.QpTable
import BlueRdma.Workers.Tasks

namespace BlueRdma

structure AckTimeoutConfig where
  localAckTimeoutExp : UInt8
  initRetryCount : Nat

/-- `AckTimeoutConfig::default`. -/
def AckTimeoutConfig.default : AckTimeoutConfig := ⟨50,5⟩

/-- Times are nanoseconds on a clock that is read when a task is processed. -/
structure TransportTimer where
  timeoutInterval : Option Nat
  lastStart : Option Nat
  initRetryCounter : Nat
  currentRetryCounter : Nat
  deriving DecidableEq

inductive TimerResult
  | ok
  | timeout
  | retryLimitExceeded
  deriving DecidableEq

namespace TransportTimer

/-- The timer is disabled when the exponent is zero, else it runs for `4.096 us * 2^exponent`;
the shift is a `u64` shift. -/
def new (localAckTimeout : UInt8) (initRetryCounter : Nat) : TransportTimer where
  timeoutInterval := if localAckTimeout=0 then none
    else some ((4096 : UInt64)<<<localAckTimeout.toUInt64).toNat
  lastStart := none
  initRetryCounter := initRetryCounter
  currentRetryCounter := initRetryCounter

def stop (t : TransportTimer) : TransportTimer := {t with lastStart := none}

def restart (now : Nat) (t : TransportTimer) : TransportTimer :=
  {t with currentRetryCounter := t.initRetryCounter,lastStart := some now}

def reset (now : Nat) (t : TransportTimer) : TransportTimer := {t with lastStart := some now}

def checkTimeout (now : Nat) (t : TransportTimer) : TimerResult × TransportTimer :=
  match t.timeoutInterval,t.lastStart with
  | some timeout,some start =>
    if now-start<timeout then (.ok,t)
    else if t.currentRetryCounter=0 then (.retryLimitExceeded,t)
    else (.timeout,reset now {t with currentRetryCounter := t.currentRetryCounter-1})
  | _,_ => (.ok,t)

end TransportTimer

/-- The timer of one QP and the number of its messages that wait for an acknowledgement. -/
structure QpAckTimeout where
  timer : TransportTimer
  outstandingAckReqCnt : UInt64 := 0
  deriving DecidableEq

namespace QpAckTimeoutWorker

def new (config : AckTimeoutConfig) : QpAckTimeout where
  timer := .new config.localAckTimeoutExp config.initRetryCount

/-- The count wraps as in a build without overflow checks; with them the thread panics. -/
def process (now : Nat) (w : QpAckTimeout) : AckTimeoutTask → Outcome Msg QpAckTimeout
  | .newAckReq => ⟨[],some ⟨w.timer.restart now,w.outstandingAckReqCnt+1⟩⟩
  | .recvMeta => ⟨[],some {w with timer := w.timer.restart now}⟩
  | .ack =>
    let cnt := w.outstandingAckReqCnt-1
    ⟨[],some ⟨if cnt=0 then w.timer.stop else w.timer,cnt⟩⟩

/-- A timeout asks for everything to be sent again; running out of retries hits a `todo!`. -/
def maintainance (now : Nat) (w : QpAckTimeout) : Outcome Msg QpAckTimeout :=
  match w.timer.checkTimeout now with
  | (.ok,t) => ⟨[],some {w with timer := t}⟩
  | (.timeout,t) => ⟨[.retransmit .retransmitAll],some {w with timer := t}⟩
  | (.retryLimitExceeded,_) => ⟨[],none⟩

/-- A task for one of the QPs. -/
def processTask (now : Nat) (t : QpTable QpAckTimeout) (qpn : UInt32) (task : AckTimeoutTask) :
    QpTable QpAckTimeout :=
  t.mapQpMut qpn (fun w => (process now w task).next.getD w)

/-- What the maintenance of all QPs does: the QPs it asks to send everything again, and the QP
whose retries are used up, where the thread panics. -/
structure Maintained where
  table : QpTable QpAckTimeout
  timedOut : List (Fin maxQpCnt) := []
  exhausted : Option (Fin maxQpCnt) := none

/-- The clock is read for each QP in turn. -/
def maintainAll (now : Fin maxQpCnt → Nat) :
    List (Fin maxQpCnt) → QpTable QpAckTimeout → Maintained
  | [],t => ⟨t,[],none⟩
  | i::is,t => match (t i).timer.checkTimeout (now i) with
    | (.ok,_) => maintainAll now is t
    | (.timeout,timer) =>
      let r := maintainAll now is (Function.update t i {t i with timer := timer})
      {r with timedOut := i::r.timedOut}
    | (.retryLimitExceeded,_) => ⟨t,[],some i⟩

def Running (w : QpAckTimeout) : Prop :=
  w.timer.lastStart.isSome=true ∧ w.timer.timeoutInterval.isSome=true

/-- Only a running timer can fire. -/
theorem checkTimeout_running (now : Nat) (w : QpAckTimeout)
    (h : (w.timer.checkTimeout now).1≠.ok) : Running w := by
  unfold TransportTimer.checkTimeout at h
  rcases hi : w.timer.timeoutInterval with _|interval
  · rw [hi] at h
    exact absurd rfl h
  rcases hs : w.timer.lastStart with _|start
  · rw [hi,hs] at h
    exact absurd rfl h
  exact ⟨by rw [hs]; rfl,by rw [hi]; rfl⟩

end QpAckTimeoutWorker
end BlueRdma
