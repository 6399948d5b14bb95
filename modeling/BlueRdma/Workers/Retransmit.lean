import BlueRdma.Math.PartitionPoint
import BlueRdma.RdmaUtils.Fragmenter
import BlueRdma.Workers.Tasks

namespace BlueRdma

/-- Work requests kept until they are acknowledged. The `VecDeque` behind it is a ring buffer;
where its storage wraps is left open and passed to the operations as `split`. -/
structure IbvSendQueue where
  inner : List SendQueueElem := []
  basePsn : Psn := ⟨0⟩
  deriving DecidableEq

namespace IbvSendQueue

def push (q : IbvSendQueue) (elem : SendQueueElem) : IbvSendQueue :=
  {q with inner := q.inner++[elem]}

/-- Number of elements before the first one that starts at `psn` or later. -/
def before (split : Nat) (q : IbvSendQueue) (psn : Psn) : Nat :=
  Search.ringPartitionPoint split (fun x => decide (x.psn<psn)) q.inner

/-- The last element that starts before `psn` stays, since it may reach past it. -/
def popUntil (split : Nat) (q : IbvSendQueue) (psn : Psn) : IbvSendQueue :=
  ⟨q.inner.drop (q.before split psn-1),psn⟩

/-- Find range [`psnLow`, `psnHigh`). -/
def range (split : Nat) (q : IbvSendQueue) (psnLow psnHigh : Psn) : List SendQueueElem :=
  let a := q.before split psnLow
  let b := q.before split psnHigh
  if b≤a then [] else (q.inner.take b).drop a

end IbvSendQueue

/-- Packets of a work request in the queue. -/
def SendQueueElem.packets (e : SendQueueElem) : List WrChunk :=
  (wrPacketFragmenter e.wr e.qpParam e.psn).getD []

namespace PacketRetransmitWorker

/-- The flattened packets; `none` marks an element whose path MTU makes the fragmenter panic. -/
def packetStream (sqes : List SendQueueElem) : List (Option WrChunk) :=
  sqes.flatMap (fun e => match wrPacketFragmenter e.wr e.qpParam e.psn with
    | some ps => ps.map some
    | none => [none])

/-- Sends packets as long as `keep` holds; the second result is false after a panic. -/
def transmit (keep : WrChunk → Bool) : List (Option WrChunk) → List Msg × Bool
  | [] => ([],true)
  | none::_ => ([],false)
  | some packet::rest =>
    if keep packet then (.chunk packet.setIsRetry::(transmit keep rest).1,(transmit keep rest).2)
    else ([],true)

def skipWhile (skip : WrChunk → Bool) (stream : List (Option WrChunk)) : List (Option WrChunk) :=
  stream.dropWhile (fun x => x.any skip)

/-- `PacketRetransmitWorker::process` for the send queue of one QP. -/
def process (split : Nat) (sq : IbvSendQueue) : PacketRetransmitTask → Outcome Msg IbvSendQueue
  | .newWr wr => ⟨[],some (sq.push wr)⟩
  | .retransmitRange psnLow psnHigh =>
    let packets := skipWhile (fun x => decide (x.psn<psnLow))
      (packetStream (sq.range split psnLow psnHigh))
    let sent := transmit (fun x => decide (x.psn<psnHigh)) packets
    ⟨sent.1,if sent.2 then some sq else none⟩
  | .retransmitAll =>
    let packets := skipWhile (fun x => decide (x.psn < sq.basePsn)) (packetStream sq.inner)
    let sent := transmit (fun _ => true) packets
    ⟨sent.1,if sent.2 then some sq else none⟩
  | .ack psn => ⟨[],some (sq.popUntil split psn)⟩

/-- Sending again leaves the queue as it is. -/
theorem process_resend (split : Nat) (sq sq' : IbvSendQueue) (t : PacketRetransmitTask)
    (ht : t=.retransmitAll ∨ ∃ lo hi,t=.retransmitRange lo hi)
    (h : (process split sq t).next=some sq') : sq'=sq := by
  have hsame : ∀ b : Bool,(if b then some sq else none)=some sq' → sq'=sq := by
    intro b hb
    split_ifs at hb
    exact (Option.some.inj hb).symm
  rcases ht with rfl|⟨lo,hi,rfl⟩
  · exact hsame _ h
  · exact hsame _ h

/-- When every fragmenter can be built the stream is the packets of the elements. -/
theorem packetStream_eq (sqes : List SendQueueElem)
    (h : ∀ e∈sqes,(convertIbvMtuToU16 e.qpParam.pmtu).isSome=true) :
    packetStream sqes=(sqes.flatMap SendQueueElem.packets).map some := by
  induction sqes with
  | nil => rfl
  | cons e es ih =>
      obtain ⟨m,hm⟩ := Option.isSome_iff_exists.mp (h e (List.mem_cons_self ..))
      obtain ⟨ps,hps,-⟩ := wrPacketFragmenter_spec e.wr e.qpParam m e.psn hm
      rw [packetStream,List.flatMap_cons,List.flatMap_cons,List.map_append,SendQueueElem.packets,
        hps]
      exact congrArg _ (ih (fun x hx => h x (List.mem_cons_of_mem _ hx)))

theorem skipWhile_map_some (skip : WrChunk → Bool) (ps : List WrChunk) :
    skipWhile skip (ps.map some)=(ps.dropWhile skip).map some := by
  rw [skipWhile,List.dropWhile_map]
  rfl

theorem transmit_map_some (keep : WrChunk → Bool) (ps : List WrChunk) :
    transmit keep (ps.map some)=((ps.takeWhile keep).map (fun c => .chunk c.setIsRetry),true) := by
  induction ps with
  | nil => rfl
  | cons c cs ih =>
      rw [List.map_cons,transmit,ih]
      by_cases h : keep c=true
      · rw [if_pos h,List.takeWhile_cons_of_pos h]
        rfl
      · rw [if_neg h,List.takeWhile_cons_of_neg h]
        rfl

end PacketRetransmitWorker
end BlueRdma
