import BlueRdma.Net.SimpleNic
import BlueRdma.RingBuf.Sync

namespace BlueRdma
open DmaRingBuf

/-- Where a call of `send` stands: in its loop, in front of the write of the head register, or in
front of the read of the tail register. -/
inductive SendPhase
  | idle
  | pushing (desc : SimpleNicTxQueueDesc) (frame : List UInt8)
  | pushed
  | told

def SendPhase.isPushing : SendPhase → Bool
  | .pushing _ _ => true
  | _ => false

/-- The queue and its registers. The last two fields record the frames whose descriptors were
pushed and how many descriptors the device has consumed. -/
structure FrameSystem where
  queue : FrameTxQueue
  phase : SendPhase := .idle
  panicked : Bool := false
  frames : List (List UInt8) := []
  consumed : Nat := 0

inductive FrameStep
  /-- `send` is called and builds its descriptor. -/
  | send (frame : List UInt8)
  /-- The call goes on; an access to a register succeeds or not. -/
  | next (ok : Bool)
  /-- The device moves its tail register over `n` descriptors. -/
  | consume (n : Nat)

namespace FrameSystem

/-- A zero-initialised ring and registers, and a transmit buffer with anything in it. -/
def init (base : UInt64) (bytes : Nat → UInt8) : FrameSystem where
  queue := .new ⟨.zeroed⟩ ⟨bytes,descRingBufSize⟩ base ⟨0,0⟩

def published (s : FrameSystem) : Nat :=
  DmaRingBuf.published s.queue.csrRing.head s.queue.csrRing.tail

/-- Calls do not overlap and frames fit a slot; the device stays behind the head it was told. -/
def Enabled (s : FrameSystem) : FrameStep → Prop
  | .send frame => s.phase=.idle ∧ frame.length ≤ frameSlotSize
  | .next _ => True
  | .consume n => n ≤ s.published

def advanceTail (q : FrameTxQueue) (n : Nat) : FrameTxQueue :=
  {q with csrRing := {q.csrRing with tail := UInt32.ofNat ((q.csrRing.tail.toNat+n)%8192)}}

def step (s : FrameSystem) : FrameStep → FrameSystem
  | .send frame => match s.queue.buildDesc frame with
    | none => {s with panicked := true}
    | some (q,desc) => {s with queue := q,phase := .pushing desc frame}
  | .consume n => {s with queue := advanceTail s.queue n,consumed := s.consumed+n}
  | .next ok => match s.phase with
    | .idle => s
    | .pushing desc frame =>
      if (s.queue.pushDesc desc).2 then
        {s with
          queue := (s.queue.pushDesc desc).1
          phase := .pushed
          frames := s.frames++[frame]}
      else s
    | .pushed => {s with queue := s.queue.writeHead ok,phase := .told}
    | .told => {s with queue := s.queue.readTail ok,phase := .idle}

/-- Where the frame with number `k` is copied to. -/
def slotOffset (k : Nat) : Nat := 128*(k%1024)

theorem slotOffset_fits (k : Nat) (frame : List UInt8) (h : frame.length ≤ frameSlotSize) :
    slotOffset k+frame.length ≤ descRingBufSize := by
  change frame.length ≤ 128 at h
  change _ ≤ 131072
  rw [slotOffset]
  omega

/-- The descriptor of the frame with number `k`. -/
def descOf (base : UInt64) (k : Nat) (frame : List UInt8) : SimpleNicTxQueueDesc :=
  .new (base+UInt64.ofNat (slotOffset k)) (UInt32.ofNat frame.length)

def descriptors (base : UInt64) (frames : List (List UInt8)) : List DescBytes :=
  frames.mapIdx (fun k frame => DescSerialize.serialize (descOf base k frame))

theorem descriptors_concat (base : UInt64) (frames : List (List UInt8)) (frame : List UInt8) :
    descriptors base (frames++[frame])=descriptors base frames++
      [DescSerialize.serialize (descOf base frames.length frame)] := List.mapIdx_concat

theorem length_descriptors (base : UInt64) (frames : List (List UInt8)) :
    (descriptors base frames).length=frames.length := List.length_mapIdx

def ring (s : FrameSystem) : DmaRingBuf DescBytes := s.queue.inner.inner.ring

/-- The calls of `send` that have copied their frame. -/
def begun (s : FrameSystem) : Nat := s.frames.length+if s.phase.isPushing then 1 else 0

/-- What holds in every state. -/
structure Good (s : FrameSystem) : Prop where
  alive : s.panicked=false
  bufLen : s.queue.buf.len=descRingBufSize
  bufHead : s.queue.bufHead=slotOffset s.begun
  pushing : ∀ desc frame,s.phase=.pushing desc frame →
    desc=descOf s.queue.bufBasePhysAddr s.frames.length frame ∧ frame.length ≤ frameSlotSize ∧
      s.queue.buf.Holds (slotOffset s.frames.length) frame
  short : ∀ frame∈s.frames,frame.length ≤ frameSlotSize
  synced : ∃ low told,Synced s.ring s.queue.csrRing.head s.queue.csrRing.tail
    (descriptors s.queue.bufBasePhysAddr s.frames) s.consumed low told

theorem init_good (base : UInt64) (bytes : Nat → UInt8) : Good (init base bytes) where
  alive := rfl
  bufLen := rfl
  bufHead := rfl
  pushing := fun desc frame h => by cases h
  short := fun frame h => by cases h
  synced := ⟨0,0,new_synced _⟩

/-- The frame goes to the slot the cursor points to, and the cursor to the next one. -/
theorem buildDesc_eq (q : FrameTxQueue) (frame : List UInt8) (k : Nat)
    (hlen : q.buf.len=descRingBufSize) (hhead : q.bufHead=slotOffset k)
    (hframe : frame.length ≤ frameSlotSize) :
    ∃ buf,q.buf.copyFrom (slotOffset k) frame=some buf ∧
      q.buildDesc frame=some ({q with buf := buf,bufHead := slotOffset (k+1)},
        descOf q.bufBasePhysAddr k frame) := by
  have hnext : (slotOffset k+128)%2^64%131072=slotOffset (k+1) := by
    rw [slotOffset,slotOffset]
    omega
  have hfits : slotOffset k+frame.length ≤ q.buf.len := by
    rw [hlen]
    exact slotOffset_fits k frame hframe
  have hlarge : ¬frameSlotSize<frame.length := Nat.not_lt.mpr hframe
  have hsmall : frame.length<2^32 := lt_of_le_of_lt hframe (by decide)
  obtain ⟨buf,hcopy⟩ : ∃ buf,q.buf.copyFrom (slotOffset k) frame=some buf := ⟨_,if_pos hfits⟩
  have hlen' : buf.len=131072 := by
    rw [MmapMut.copyFrom_eq_some _ _ _ _ hcopy]
    exact hlen
  have hwrite : q.writeNext frame=some ({q with buf := buf,bufHead := slotOffset (k+1)},
      q.bufBasePhysAddr+UInt64.ofNat (slotOffset k)) := by
    rw [FrameTxQueue.writeNext,if_neg hlarge,hhead,hcopy]
    change (if buf.len=0 then none else _)=_
    rw [hlen',if_neg (by decide),← hnext]
    rfl
  refine ⟨buf,hcopy,?_⟩
  rw [FrameTxQueue.buildDesc,hwrite]
  exact if_pos hsmall

theorem Good.send (s : FrameSystem) (frame : List UInt8) (hidle : s.phase=.idle)
    (hframe : frame.length ≤ frameSlotSize) (h : Good s) :
    ∃ buf,s.queue.buf.copyFrom (slotOffset s.frames.length) frame=some buf ∧
      s.step (.send frame)={s with
        queue := {s.queue with buf := buf,bufHead := slotOffset (s.frames.length+1)}
        phase := .pushing (descOf s.queue.bufBasePhysAddr s.frames.length frame) frame} := by
  have hbegun : s.begun=s.frames.length := by
    rw [begun,hidle]
    rfl
  have hhead := h.bufHead
  rw [hbegun] at hhead
  obtain ⟨buf,hcopy,hbuild⟩ := buildDesc_eq s.queue frame s.frames.length h.bufLen hhead hframe
  exact ⟨buf,hcopy,by rw [step,hbuild]⟩

theorem Good.step_send (s : FrameSystem) (frame : List UInt8) (hidle : s.phase=.idle)
    (hframe : frame.length ≤ frameSlotSize) (h : Good s) : Good (s.step (.send frame)) := by
  obtain ⟨buf,hcopy,hstep⟩ := h.send s frame hidle hframe
  rw [hstep]
  refine ⟨h.alive,?_,rfl,?_,h.short,h.synced⟩
  · dsimp only
    rw [MmapMut.copyFrom_eq_some _ _ _ _ hcopy]
    exact h.bufLen
  · intro desc frame' hphase
    obtain ⟨rfl,rfl⟩ := SendPhase.pushing.inj hphase
    exact ⟨rfl,hframe,MmapMut.holds_copyFrom_self _ _ _ _ hcopy⟩

theorem len_le (s : FrameSystem) (h : Good s) : s.ring.len ≤ ringBufLen := by
  obtain ⟨low,told,hsync⟩ := h.synced
  have hlen := hsync.length_le
  rw [hsync.len_eq]
  change _ ≤ 4096
  omega

/-- As long as the ring looks full the loop goes round. -/
theorem step_full (s : FrameSystem) (desc : SimpleNicTxQueueDesc) (frame : List UInt8) (ok : Bool)
    (hphase : s.phase=.pushing desc frame) (hfull : s.ring.len=ringBufLen) :
    s.step (.next ok)=s := by
  have hpush : (s.queue.pushDesc desc).2=false := by
    change (s.ring.push (DescSerialize.serialize desc)).2=false
    rw [DmaRingBuf.push,if_pos hfull]
  simp only [step,hphase,hpush,Bool.false_eq_true,if_false]

theorem step_room (s : FrameSystem) (desc : SimpleNicTxQueueDesc) (frame : List UInt8) (ok : Bool)
    (hphase : s.phase=.pushing desc frame) (hroom : s.ring.len < ringBufLen) :
    s.step (.next ok)={s with
      queue := (s.queue.pushDesc desc).1
      phase := .pushed
      frames := s.frames++[frame]} := by
  have hpush : (s.queue.pushDesc desc).2=true := by
    change (s.ring.push (DescSerialize.serialize desc)).2=true
    rw [DmaRingBuf.push,if_neg hroom.ne]
  simp only [step,hphase,hpush,if_true]

theorem step_pushed (s : FrameSystem) (ok : Bool) (hphase : s.phase=.pushed) :
    s.step (.next ok)={s with queue := s.queue.writeHead ok,phase := .told} := by
  rw [step,hphase]

theorem step_told (s : FrameSystem) (ok : Bool) (hphase : s.phase=.told) :
    s.step (.next ok)={s with queue := s.queue.readTail ok,phase := .idle} := by
  rw [step,hphase]

theorem step_idle (s : FrameSystem) (ok : Bool) (hphase : s.phase=.idle) : s.step (.next ok)=s := by
  rw [step,hphase]

theorem Good.step_room (s : FrameSystem) (desc : SimpleNicTxQueueDesc) (frame : List UInt8)
    (ok : Bool) (hphase : s.phase=.pushing desc frame) (hroom : s.ring.len < ringBufLen)
    (h : Good s) : Good (s.step (.next ok)) := by
  obtain ⟨low,told,hsync⟩ := h.synced
  obtain ⟨rfl,hframe,-⟩ := h.pushing desc frame hphase
  have hbegun : s.begun=s.frames.length+1 := by
    rw [begun,hphase]
    rfl
  rw [FrameSystem.step_room s _ frame ok hphase hroom]
  refine ⟨h.alive,h.bufLen,?_,?_,?_,low,told,?_⟩
  · change s.queue.bufHead=slotOffset (s.frames++[frame]).length
    rw [h.bufHead,hbegun,List.length_append,List.length_singleton]
  · intro desc frame' hpushing
    cases hpushing
  · intro frame' hmem
    rcases List.mem_append.mp hmem with hmem|hmem
    · exact h.short frame' hmem
    · rw [List.mem_singleton.mp hmem]
      exact hframe
  · have hpush := (hsync.push hroom (DescSerialize.serialize
      (descOf s.queue.bufBasePhysAddr s.frames.length frame))).2
    rw [← descriptors_concat] at hpush
    exact hpush

/-- The registers can be accessed between two frames. -/
theorem Good.access (s : FrameSystem) (inner : SimpleNicTxQueue) (csrRing : SendRing)
    (phase : SendPhase) (h : Good s) (hs : s.phase.isPushing=false) (hphase : phase.isPushing=false)
    (hsync : ∃ low told,Synced inner.inner.ring csrRing.head csrRing.tail
      (descriptors s.queue.bufBasePhysAddr s.frames) s.consumed low told) :
    Good {s with queue := {s.queue with inner := inner,csrRing := csrRing},phase := phase} := by
  have hhead := h.bufHead
  rw [begun,hs] at hhead
  refine ⟨h.alive,h.bufLen,?_,?_,h.short,hsync⟩
  · rw [begun]
    dsimp only
    rw [hphase]
    exact hhead
  · rintro desc frame rfl
    cases hphase

theorem Good.step_pushed (s : FrameSystem) (ok : Bool) (hphase : s.phase=.pushed) (h : Good s) :
    Good (s.step (.next ok)) := by
  obtain ⟨low,told,hsync⟩ := h.synced
  have hs : s.phase.isPushing=false := by rw [hphase]; rfl
  rw [FrameSystem.step_pushed s ok hphase]
  cases ok with
  | false => exact h.access s s.queue.inner s.queue.csrRing .told hs rfl ⟨low,told,hsync⟩
  | true =>
      exact h.access s s.queue.inner ⟨s.queue.inner.head,s.queue.csrRing.tail⟩ .told hs rfl
        ⟨low,_,hsync.writeHead⟩

theorem Good.step_told (s : FrameSystem) (ok : Bool) (hphase : s.phase=.told) (h : Good s) :
    Good (s.step (.next ok)) := by
  obtain ⟨low,told,hsync⟩ := h.synced
  have hs : s.phase.isPushing=false := by rw [hphase]; rfl
  rw [FrameSystem.step_told s ok hphase]
  cases ok with
  | false => exact h.access s s.queue.inner s.queue.csrRing .idle hs rfl ⟨low,told,hsync⟩
  | true =>
      exact h.access s (s.queue.inner.setTail s.queue.csrRing.tail) s.queue.csrRing .idle hs rfl
        ⟨_,told,hsync.readTail⟩

theorem step_good (s : FrameSystem) (l : FrameStep) (hl : Enabled s l) (h : Good s) :
    Good (s.step l) := by
  cases l with
  | send frame => exact h.step_send s frame hl.1 hl.2
  | consume n =>
      obtain ⟨low,told,hsync⟩ := h.synced
      exact ⟨h.alive,h.bufLen,h.bufHead,h.pushing,h.short,low,told,hsync.consume n hl⟩
  | next ok =>
      obtain ⟨phase,hphase⟩ : ∃ phase,s.phase=phase := ⟨_,rfl⟩
      cases phase with
      | idle =>
          rw [step_idle s ok hphase]
          exact h
      | pushing desc frame =>
          rcases Nat.lt_or_eq_of_le (len_le s h) with hroom|hfull
          · exact h.step_room s desc frame ok hphase hroom
          · rw [step_full s desc frame ok hphase hfull]
            exact h
      | pushed => exact h.step_pushed s ok hphase
      | told => exact h.step_told s ok hphase

theorem run_good (base : UInt64) (bytes : Nat → UInt8) (ls : List FrameStep)
    (hls : Run.Along step Enabled (init base bytes) ls) :
    Good (Run.run step (init base bytes) ls) :=
  Run.run_inv step Enabled Good step_good _ ls hls (init_good base bytes)

/-- A whole call, with no step of the device in between. -/
def sendSteps (frame : List UInt8) : List FrameStep :=
  [.send frame,.next true,.next true,.next true]

/-- If the ring does not look full the call returns, and the device has been told. -/
theorem run_sendSteps (s : FrameSystem) (frame : List UInt8) (h : Good s) (hidle : s.phase=.idle)
    (hframe : frame.length ≤ frameSlotSize) (hroom : s.ring.len < ringBufLen) :
    Run.Along step Enabled s (sendSteps frame) ∧
    (Run.run step s (sendSteps frame)).phase=.idle ∧
    (Run.run step s (sendSteps frame)).frames=s.frames++[frame] ∧
    (Run.run step s (sendSteps frame)).consumed=s.consumed ∧
    (Run.run step s (sendSteps frame)).queue.csrRing.head=
      (Run.run step s (sendSteps frame)).queue.inner.head := by
  obtain ⟨buf,-,hstep⟩ := h.send s frame hidle hframe
  have hpush := step_room (s.step (.send frame)) (descOf s.queue.bufBasePhysAddr s.frames.length frame) frame
    true (by rw [hstep]) (by rw [hstep]; exact hroom)
  rw [hstep] at hpush
  simp only [sendSteps,Run.run_cons,Run.run_nil,Run.Along,hstep,hpush]
  exact ⟨⟨⟨hidle,hframe⟩,trivial,trivial,trivial,trivial⟩,rfl,rfl,rfl,rfl⟩

/-- Calls against a device that does not consume. -/
def sends (frame : List UInt8) : Nat → List FrameStep
  | 0 => []
  | n+1 => sends frame n++sendSteps frame

/-- The state after such calls, up to the length of the ring. -/
structure Stalled (s : FrameSystem) (frame : List UInt8) (n : Nat) : Prop where
  good : Good s
  idle : s.phase=.idle
  frames : s.frames=List.replicate n frame
  consumed : s.consumed=0
  told : s.queue.csrRing.head=s.queue.inner.head

theorem Stalled.synced (s : FrameSystem) (frame : List UInt8) (n : Nat) (h : Stalled s frame n) :
    Synced s.ring s.queue.csrRing.head s.queue.csrRing.tail
      (descriptors s.queue.bufBasePhysAddr s.frames) 0 0 n := by
  obtain ⟨low,told,hsync⟩ := h.good.synced
  have hlow := hsync.behind
  have hsync' := hsync.writeHead
  rw [h.consumed] at hlow hsync'
  obtain rfl := Nat.le_zero.mp hlow
  rw [length_descriptors,h.frames,List.length_replicate,← h.frames] at hsync'
  rw [h.told]
  exact hsync'

theorem Stalled.len_eq (s : FrameSystem) (frame : List UInt8) (n : Nat) (h : Stalled s frame n) :
    s.ring.len=n := by
  rw [(h.synced s frame n).len_eq,length_descriptors,h.frames,List.length_replicate,Nat.sub_zero]

theorem run_sends (base : UInt64) (bytes : Nat → UInt8) (frame : List UInt8)
    (hframe : frame.length ≤ frameSlotSize) (n : Nat) (hn : n ≤ ringBufLen) :
    Run.Along step Enabled (init base bytes) (sends frame n) ∧
      Stalled (Run.run step (init base bytes) (sends frame n)) frame n := by
  induction n with
  | zero => exact ⟨trivial,init_good base bytes,rfl,rfl,rfl,rfl⟩
  | succ n ih =>
      obtain ⟨halong,h⟩ := ih (Nat.le_of_succ_le hn)
      obtain ⟨hsteps,hidle,hframes,hconsumed,htold⟩ := run_sendSteps _ frame h.good h.idle hframe (by
        rw [h.len_eq]
        exact hn)
      refine ⟨(Run.along_append ..).mpr ⟨halong,hsteps⟩,?_⟩
      rw [sends,Run.run_append]
      refine ⟨Run.run_inv step Enabled Good step_good _ _ hsteps h.good,hidle,?_,?_,htold⟩
      · rw [hframes,h.frames,List.replicate_succ']
      · rw [hconsumed,h.consumed]

end FrameSystem
end BlueRdma
