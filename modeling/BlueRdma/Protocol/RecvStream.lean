import BlueRdma.Math.Framing
import BlueRdma.Protocol.PostedReceives

namespace BlueRdma
namespace RecvStream
open PostedReceives

/-- What a write that fails got through. -/
structure StreamIo extends ChannelIo where
  taken : Nat := 0

/-- The bytes a post puts on the stream: all of the receive, or what a failed write got through. -/
def written (tx : TcpChannelTx) (wr : RecvWr) (io : StreamIo) : List UInt8 :=
  let r := tx.send io.toChannelIo
  match r.2 with
  | .ok () => wr.toBytes
  | .error _ => if r.1.connected then wr.toBytes.take (min io.taken (RecvWr.size-1)) else []

/-- The responder and the initiator with the bytes on their way and the initiator's thread. For the
record, whether a write has failed after it got some bytes through. -/
structure StreamPeers (N : Type) where
  net : N
  tx : TcpChannelTx
  stream : List UInt8 := []
  broken : Bool := false
  worker : RecvWorker := {}
  queue : List RecvWr := []
  posts : List RecvWr := []
  sends : List (RecvWr × SendWrRdma) := []

inductive StreamLabel (M : Type)
  | postRecv (wr : RecvWr) (io : StreamIo)
  | accept
  | read (n : Nat)
  | error (e : IoError)
  | send (wr : SendWrBase)
  | net (l : NetLabel Worker Nat M)

section Steps
variable {N M : Type} (stepNet : N → NetLabel Worker Nat M → N) (alive : N → Bool) (lift : Msg → M)

def postRecv (s : StreamPeers N) (wr : RecvWr) (io : StreamIo) : StreamPeers N :=
  if alive s.net then
    let r := s.tx.send io.toChannelIo
    let bytes := written s.tx wr io
    {s with
      net := stepNet s.net (.post (lift (registration wr)))
      tx := r.1
      stream := s.stream++bytes
      broken := s.broken || (!bytes.isEmpty && bytes.length≠RecvWr.size)
      posts := s.posts++[wr]}
  else s

/-- A call of the initiator's thread returns. -/
def work (s : StreamPeers N) (io : RecvIo) (rest : List UInt8) : StreamPeers N :=
  let r := s.worker.run io
  {s with worker := r.1,queue := s.queue++r.2.toList,stream := rest}

/-- The thread waits for bytes, and there are as many as the call returns. -/
def CanRead (s : StreamPeers N) (n : Nat) : Prop :=
  s.worker.running=true ∧ s.worker.rx.accepted=true ∧ 0<n ∧ n ≤ s.worker.missing ∧
    n ≤ s.stream.length

instance (s : StreamPeers N) (n : Nat) : Decidable (CanRead s n) :=
  inferInstanceAs (Decidable (_ ∧ _))

def step (s : StreamPeers N) : StreamLabel M → StreamPeers N
  | .postRecv wr io => postRecv stepNet alive lift s wr io
  | .accept => if s.worker.running ∧ !s.worker.rx.accepted ∧ s.tx.connected then
    work s .accept s.stream else s
  | .read n => if CanRead s n then work s (.read (s.stream.take n)) (s.stream.drop n) else s
  | .error e => work s (.error e) s.stream
  | .send wr =>
    let c := HwDeviceCtx.send s.queue wr
    {s with
      queue := c.next
      sends := s.sends++(match s.queue,c.result with
        | r::_,some (.ok w) => [(r,w)]
        | _,_ => [])}
  | .net l => {s with net := stepNet s.net l}

/-- Nothing more gets through after a write was cut off. -/
def Allowed (s : StreamPeers N) : StreamLabel M → Prop
  | .postRecv wr io => s.broken=true → written s.tx wr io=[]
  | _ => True

/-- A buffer with a whole receive. -/
def full (buf : List UInt8) : Bool := buf.length=RecvWr.size

/-- The whole receives among some bytes. -/
def receives (bytes : List UInt8) : List RecvWr := (Framing.feed full [] bytes).1.map .fromBytes

/-- The peers with whole receives on the wire. -/
def toPeers (s : StreamPeers N) : Peers N where
  net := s.net
  tx := s.tx
  wire := receives (s.worker.rx.buf++s.stream)
  queue := s.queue
  posts := s.posts
  sends := s.sends

/-- The steps a step stands for. -/
def abstractLabel (s : StreamPeers N) : StreamLabel M → List (PeersLabel M)
  | .postRecv wr io => [.postRecv wr io.toChannelIo]
  | .read n => if CanRead s n ∧ n=s.worker.missing then [.arrive] else []
  | .accept | .error _ => []
  | .send wr => [.send wr]
  | .net l => [.net l]

theorem frame_toBytes (wr : RecvWr) : Framing.Frame full wr.toBytes := by
  refine ⟨?_,by simp [full],?_⟩
  · intro h
    have hlen := wr.length_toBytes
    rw [h] at hlen
    cases hlen
  · intro p hp _ hne
    have hlt : p.length<RecvWr.size := by
      rw [← wr.length_toBytes]
      exact lt_of_le_of_ne hp.length_le (fun h => hne (hp.eq_of_length h))
    simp [full,hlt.ne]

/-- Receives one after the other, and behind them the beginning of another. -/
structure Framed (bytes : List UInt8) (wire : List RecvWr) (tail : List UInt8) : Prop where
  eq : bytes=wire.flatMap RecvWr.toBytes++tail
  short : tail.length<RecvWr.size

theorem Framed.receives (bytes : List UInt8) (wire : List RecvWr) (tail : List UInt8)
    (h : Framed bytes wire tail) : receives bytes=wire := by
  have htail : Framing.feed full [] tail=([],tail) := by
    apply Framing.feed_open
    intro p hp _
    have hlt := hp.length_le.trans_lt h.short
    simp [full,hlt.ne]
  rw [RecvStream.receives,h.eq,
    Framing.feed_flatMap full _ wire tail (fun wr _ => frame_toBytes wr),htail,List.append_nil,
    List.map_map]
  exact (List.map_congr_left (fun wr _ => wr.fromBytes_toBytes)).trans (List.map_id wire)

/-- What is read and what is on its way are whole receives, and behind them at most the beginning
of one whose write was cut off. -/
structure Inv (s : StreamPeers N) : Prop where
  buf : s.worker.rx.buf.length<RecvWr.size
  stream : ∃ wire tail,Framed (s.worker.rx.buf++s.stream) wire tail ∧ (tail≠[] → s.broken=true)

theorem written_ok (tx : TcpChannelTx) (wr : RecvWr) (io : StreamIo)
    (h : (tx.send io.toChannelIo).2=.ok ()) : written tx wr io=wr.toBytes := by
  rw [written,h]

theorem written_error (tx : TcpChannelTx) (wr : RecvWr) (io : StreamIo) (e : IoError)
    (h : (tx.send io.toChannelIo).2=.error e) : (written tx wr io).length<RecvWr.size := by
  rw [written,h]
  dsimp only
  split_ifs
  · rw [List.length_take,RecvWr.length_toBytes,RecvWr.size]
    omega
  · exact Nat.succ_pos _

/-- A post adds its receive to what is on its way if the channel takes it. -/
theorem written_framed (s : StreamPeers N) (wr : RecvWr) (io : StreamIo)
    (hl : s.broken=true → written s.tx wr io=[]) (wire : List RecvWr) (tail : List UInt8)
    (h : Framed (s.worker.rx.buf++s.stream) wire tail) (hbroken : tail≠[] → s.broken=true) :
    ∃ tail',Framed (s.worker.rx.buf++(s.stream++written s.tx wr io))
      (wire++(match (s.tx.send io.toChannelIo).2 with | .ok () => [wr] | .error _ => [])) tail' ∧
      (tail'≠[] → s.broken=true ∨
        (written s.tx wr io≠[] ∧ (written s.tx wr io).length≠RecvWr.size)) := by
  by_cases hb : s.broken=true
  · have hnil := hl hb
    rcases hsend : (s.tx.send io.toChannelIo).2 with e|⟨⟨⟩⟩
    · refine ⟨tail,?_,fun _ => .inl hb⟩
      rwa [hnil,List.append_nil,List.append_nil]
    · rw [written_ok s.tx wr io hsend] at hnil
      exact absurd hnil (frame_toBytes wr).nonempty
  rw [← List.append_assoc,h.eq]
  have htail : tail=[] := by
    by_contra hne
    exact hb (hbroken hne)
  subst htail
  rcases hsend : (s.tx.send io.toChannelIo).2 with e|⟨⟨⟩⟩
  · have hlen := written_error s.tx wr io e hsend
    refine ⟨written s.tx wr io,⟨by simp,hlen⟩,?_⟩
    intro hne
    exact .inr ⟨hne,hlen.ne⟩
  · refine ⟨[],⟨?_,Nat.succ_pos _⟩,by simp⟩
    rw [written_ok s.tx wr io hsend]
    simp

theorem postRecv_refined (s : StreamPeers N) (wr : RecvWr) (io : StreamIo)
    (hl : s.broken=true → written s.tx wr io=[]) (h : Inv s) :
    Inv (postRecv stepNet alive lift s wr io) ∧
    toPeers (postRecv stepNet alive lift s wr io)=
      PostedReceives.postRecv stepNet alive lift (toPeers s) wr io.toChannelIo := by
  have halive : alive (toPeers s).net=alive s.net := rfl
  rw [postRecv,PostedReceives.postRecv,halive]
  by_cases hs : alive s.net=true
  swap
  · rw [if_neg hs,if_neg hs]
    exact ⟨h,rfl⟩
  rw [if_pos hs,if_pos hs]
  obtain ⟨wire,tail,hframed,hbroken⟩ := h.stream
  obtain ⟨tail',hframed',hbroken'⟩ := written_framed s wr io hl wire tail hframed hbroken
  refine ⟨⟨h.buf,_,tail',hframed',?_⟩,?_⟩
  · intro hne
    rcases hbroken' hne with hb|⟨hw,hlen⟩
    · simp [hb]
    · simp [hw,hlen]
  · have hwire := hframed'.receives
    rw [← hframed.receives] at hwire
    exact congrArg (fun wire => Peers.mk _ _ wire _ _ _) hwire

/-- Bytes that complete a receive are those of the first one on its way. -/
theorem Framed.split (bytes rest : List UInt8) (wire : List RecvWr) (tail : List UInt8)
    (h : Framed (bytes++rest) wire tail) (hlen : bytes.length=RecvWr.size) :
    ∃ wr wire',wire=wr::wire' ∧ bytes=wr.toBytes ∧ Framed rest wire' tail := by
  cases wire with
  | nil =>
      have htotal := congrArg List.length h.eq
      have hshort := h.short
      rw [List.length_append,List.flatMap_nil,List.nil_append] at htotal
      omega
  | cons wr wire' =>
      have heq := h.eq
      rw [List.flatMap_cons,List.append_assoc] at heq
      obtain ⟨hbytes,hrest⟩ := List.append_inj heq (hlen.trans wr.length_toBytes.symm)
      exact ⟨wr,wire',rfl,hbytes,hrest,h.short⟩

theorem read_refined (s : StreamPeers N) (n : Nat) (h : Inv s) :
    Inv (step stepNet alive lift s (.read n)) ∧
    toPeers (step stepNet alive lift s (.read n))=
      Run.run (PostedReceives.step stepNet alive lift) (toPeers s)
        (abstractLabel (M := M) s (.read n)) := by
  rw [step,abstractLabel]
  by_cases hcan : CanRead s n
  swap
  · rw [if_neg hcan,if_neg (fun hc => hcan hc.1)]
    exact ⟨h,rfl⟩
  obtain ⟨-,-,hpos,hmissing,hlen⟩ := id hcan
  obtain ⟨wire,tail,hframed,hbroken⟩ := h.stream
  have hbuf := h.buf
  have htake : (s.stream.take n).length=n := List.length_take_of_le hlen
  rw [RecvWorker.missing] at hmissing
  have hsplit : s.worker.rx.buf++s.stream.take n++s.stream.drop n=s.worker.rx.buf++s.stream := by
    rw [List.append_assoc,List.take_append_drop]
  rw [if_pos hcan,work,RecvWorker.run]
  dsimp only
  by_cases hfull : (s.worker.rx.buf++s.stream.take n).length=RecvWr.size
  · have hn : n=s.worker.missing := by
      rw [List.length_append,htake] at hfull
      rw [RecvWorker.missing]
      omega
    rw [← hsplit] at hframed
    obtain ⟨wr,wire',rfl,hbytes,hrest⟩ := hframed.split _ _ _ _ hfull
    rw [if_pos hfull,if_pos ⟨hcan,hn⟩]
    refine ⟨⟨Nat.succ_pos _,wire',tail,hrest,hbroken⟩,?_⟩
    have hwire : (toPeers s).wire=wr::wire' := by
      rw [toPeers,← hsplit]
      exact hframed.receives
    rw [Run.run_cons,Run.run_nil,PostedReceives.step,arrive,hwire,hbytes,wr.fromBytes_toBytes]
    simp only [toPeers,List.nil_append]
    rw [hrest.receives]
    rfl
  · have hn : n≠s.worker.missing := by
      intro hn
      apply hfull
      rw [List.length_append,htake,hn,RecvWorker.missing]
      omega
    rw [if_neg hfull,if_neg (fun hc => hn hc.2)]
    refine ⟨⟨?_,wire,tail,hsplit ▸ hframed,hbroken⟩,?_⟩
    · dsimp only
      rw [List.length_append,htake] at hfull ⊢
      omega
    · simp [toPeers,hsplit]

theorem step_refined (s : StreamPeers N) (l : StreamLabel M) (hl : Allowed s l) (h : Inv s) :
    Inv (step stepNet alive lift s l) ∧
    toPeers (step stepNet alive lift s l)=
      Run.run (PostedReceives.step stepNet alive lift) (toPeers s) (abstractLabel s l) := by
  cases l with
  | postRecv wr io => exact postRecv_refined stepNet alive lift s wr io hl h
  | accept =>
      rw [step]
      split_ifs
      · exact ⟨⟨h.buf,h.stream⟩,by simp [abstractLabel,toPeers,work,RecvWorker.run]⟩
      · exact ⟨h,rfl⟩
  | read n => exact read_refined stepNet alive lift s n h
  | error e =>
      exact ⟨⟨h.buf,h.stream⟩,by simp [step,abstractLabel,toPeers,work,RecvWorker.run]⟩
  | send wr => exact ⟨⟨h.buf,h.stream⟩,rfl⟩
  | net l => exact ⟨⟨h.buf,h.stream⟩,rfl⟩

end Steps

def streamStep (qp : QpAttr) : StreamPeers (Net Worker Worker.State Msg) → StreamLabel Msg →
    StreamPeers (Net Worker Worker.State Msg) := step (Net.step (driver qp)) alive id

def freshStream (config : AckTimeoutConfig) (tx : TcpChannelTx) :
    StreamPeers (Net Worker Worker.State Msg) where
  net := Driver.init config
  tx := tx

theorem freshStream_inv (config : AckTimeoutConfig) (tx : TcpChannelTx) :
    Inv (freshStream config tx) :=
  ⟨Nat.succ_pos _,[],[],⟨rfl,Nat.succ_pos _⟩,fun h => absurd rfl h⟩

end RecvStream

open RecvStream in
/-- However the network cuts the stream into pieces and wherever writes fail, the initiator takes
from it the receives of the responder as if whole receives travelled one by one; when nothing is
left to read, none is on its way. -/
theorem recv_stream_refines (qp : QpAttr) (config : AckTimeoutConfig) (tx : TcpChannelTx)
    (ls : List (StreamLabel Msg))
    (hls : Run.Along (streamStep qp) Allowed (freshStream config tx) ls) :
    toPeers (Run.run (streamStep qp) (freshStream config tx) ls)=
      Run.run (PostedReceives.plainStep qp) (PostedReceives.fresh config tx)
        (Run.refined (streamStep qp) abstractLabel (freshStream config tx) ls) ∧
    ((Run.run (streamStep qp) (freshStream config tx) ls).stream=[] →
      (Run.run (PostedReceives.plainStep qp) (PostedReceives.fresh config tx)
        (Run.refined (streamStep qp) abstractLabel (freshStream config tx) ls)).wire=[]) := by
  have hinv := Run.run_inv (streamStep qp) Allowed Inv
    (fun s l hl h => (step_refined _ _ _ s l hl h).1) _ ls hls (freshStream_inv config tx)
  have hrefined := Run.run_refined (streamStep qp) Allowed (PostedReceives.plainStep qp) toPeers
    abstractLabel Inv (fun s l hl h => (step_refined _ _ _ s l hl h).1)
    (fun s l hl h => (step_refined _ _ _ s l hl h).2) _ ls hls (freshStream_inv config tx)
  refine ⟨hrefined,?_⟩
  intro hdone
  change _=Run.run _ (PostedReceives.fresh config tx) _ at hrefined
  rw [← hrefined,toPeers,hdone,List.append_nil]
  exact Framed.receives _ [] _ ⟨rfl,hinv.buf⟩

open RecvStream in
/-- A receive that comes in two pieces. -/
theorem recv_stream_refines_pieces :
    (Run.run (streamStep shortPathQp) (freshStream .default ⟨0,0x100,false⟩)
      [.postRecv ⟨7,0x1000,64,3⟩ {},.accept,.read 10,.read 14]).queue=[⟨7,0x1000,64,3⟩] ∧
    toPeers (Run.run (streamStep shortPathQp) (freshStream .default ⟨0,0x100,false⟩)
      [.postRecv ⟨7,0x1000,64,3⟩ {},.accept,.read 10,.read 14])=
      Run.run (PostedReceives.plainStep shortPathQp)
        (PostedReceives.fresh .default ⟨0,0x100,false⟩)
        (Run.refined (streamStep shortPathQp) abstractLabel
          (freshStream .default ⟨0,0x100,false⟩)
          [.postRecv ⟨7,0x1000,64,3⟩ {},.accept,.read 10,.read 14]) :=
  ⟨by decide +kernel,(recv_stream_refines shortPathQp .default ⟨0,0x100,false⟩
    [.postRecv ⟨7,0x1000,64,3⟩ {},.accept,.read 10,.read 14]
    ⟨fun h => absurd h Bool.false_ne_true,trivial,trivial,trivial,trivial⟩).1⟩

end BlueRdma
