import BlueRdma.Cmd.CmdQueue
import BlueRdma.Csr.Rings
import BlueRdma.Mem.DmaBuf
import BlueRdma.Net.SimpleNic

namespace BlueRdma

open Csr (DeviceAdaptor Access CsrFault Mode RingSpec RingSpecToCard RingSpecToHost)

inductive InitFault
  | panicked (msg : String)
  | dma (e : DmaError)
  | csr (e : CsrFault)
  deriving DecidableEq

/-- What `initialize` changes: the allocator, the registers, the threads that run and the commands
the device has executed. -/
structure InitState (α σ : Type) where
  allocator : α
  csr : σ
  spawned : List String
  commands : List CmdCall

abbrev Init (α σ β : Type) := Exec InitFault (InitState α σ) β

/-- The buffers of a device that is up. -/
structure HwBuffers where
  cmdReq : DmaBuf
  cmdResp : DmaBuf
  sends : List DmaBuf
  metas : List DmaBuf
  rxBuffer : DmaBuf
  nicTx : DmaBuf
  nicRx : DmaBuf
  txBuffer : DmaBuf
  mttBuffer : DmaBuf

namespace HwBuffers

def all (b : HwBuffers) : List DmaBuf :=
  [b.cmdReq,b.cmdResp] ++ b.sends ++ b.metas ++
    [b.rxBuffer,b.nicTx,b.nicRx,b.txBuffer,b.mttBuffer]

/-- The rings with the buffers their descriptors are in. -/
def rings (b : HwBuffers) (mode : Mode) : List (RingSpec × DmaBuf) :=
  [(.toCard .cmdReq,b.cmdReq),(.toHost .cmdResp,b.cmdResp),(.toCard .simpleNicTx,b.nicTx),
    (.toHost .simpleNicRx,b.nicRx)] ++
    ((Csr.buildSendRings mode).map RingSpec.toCard).zip b.sends ++
    ((Csr.buildMetaReportRings mode).map RingSpec.toHost).zip b.metas

end HwBuffers

namespace Init
variable {α σ : Type}

/-- `DescRingBufAllocator::alloc`. -/
def rbAlloc (alloc : DmaBufAllocator α) : Init α σ DmaBuf :=
  Exec.zoom InitState.allocator (fun s a => { s with allocator := a }) InitFault.dma
    (ExceptT.mk fun a => let (a,r) := alloc a descRingBufSize; (r,a))

def access {β : Type} (m : Access σ β) : Init α σ β :=
  Exec.zoom InitState.csr (fun s c => { s with csr := c }) InitFault.csr m

/-- `DescRingBuffer::new` checks the length of its memory. -/
def descRingBufferNew (buf : DmaBuf) : Init α σ Unit :=
  if buf.len < ringBufLen*descSize then throw (.panicked "invalid length") else pure ()

def spawn (name : String) : Init α σ Unit :=
  modify fun s => { s with spawned := s.spawned++[name] }

/-- A command of the configurator. It waits until the device has executed it, and is taken to return:
its own accesses to the rings of the command queue, whose errors it ignores, are not followed. -/
def command (c : CmdCall) : Init α σ Unit :=
  modify fun s => { s with commands := s.commands++[c] }

variable (dev : DeviceAdaptor σ)

/-- `write_base_addr` for each ring with its buffer. -/
def writeBaseAddrs : List (RingSpec × DmaBuf) → Init α σ Unit
  | [] => pure ()
  | (ring,buf)::rest => do
      access (Csr.writeBaseAddr dev ring buf.physAddr)
      writeBaseAddrs rest

def newRings : List DmaBuf → Init α σ Unit
  | [] => pure ()
  | buf::rest => do
      descRingBufferNew buf
      newRings rest

def spawnAll : List String → Init α σ Unit
  | [] => pure ()
  | name::rest => do
      spawn name
      spawnAll rest

/-- `CommandConfigurator::init`. -/
def commandConfigurator (reqBuf respBuf : DmaBuf) : Init α σ Unit := do
  newRings [reqBuf,respBuf]
  writeBaseAddrs dev [(.toCard .cmdReq,reqBuf),(.toHost .cmdResp,respBuf)]

/-- `SimpleNicController::init`; the two frame buffers are only kept. -/
def simpleNicController (txRbBuf rxRbBuf : DmaBuf) : Init α σ Unit := do
  newRings [txRbBuf,rxRbBuf]
  writeBaseAddrs dev [(.toCard .simpleNicTx,txRbBuf),(.toHost .simpleNicRx,rxRbBuf)]

/-- `send::spawn`. -/
def sendSpawn (bufs : List DmaBuf) (mode : Mode) : Init α σ Unit := do
  writeBaseAddrs dev (((Csr.buildSendRings mode).map RingSpec.toCard).zip bufs)
  newRings bufs
  spawnAll ((List.range bufs.length).map (fun id => s!"SendWorker{id}"))

/-- `meta_report::spawn`. -/
def metaReportSpawn (pages : List DmaBuf) (mode : Mode) : Init α σ Unit := do
  writeBaseAddrs dev (((Csr.buildMetaReportRings mode).map RingSpec.toHost).zip pages)
  newRings pages
  spawn "MetaWorker"

/-- The middle of `initialize`, from the raw packet queues to the first two commands. -/
def bringUp (mode : Mode) (netConfig : NetworkConfig) (sends metas : List DmaBuf)
    (rxBuffer nicTx nicRx : DmaBuf) : Init α σ Unit := do
  simpleNicController dev nicTx nicRx
  sendSpawn dev sends mode
  spawnAll ["AckResponder","PacketRetransmitWorker","QpAckTimeoutWorker","RdmaWriteWorker",
    "CompletionWorker"]
  metaReportSpawn dev metas mode
  command (.setNetwork netConfig)
  command (.setRawPacketRecvBuffer ⟨rxBuffer.physAddr⟩)

/-- `HwDeviceCtx::initialize`, from the device's adaptor and allocator on. The mode is the default
one there; nothing below depends on which it is. -/
def initializeCtx (alloc : DmaBufAllocator α) (mode : Mode) (netConfig : NetworkConfig) :
    Init α σ HwBuffers := do
  let cmdReq ← rbAlloc alloc
  let cmdResp ← rbAlloc alloc
  commandConfigurator dev cmdReq cmdResp
  let sends ← Exec.repeatTake (rbAlloc alloc) mode.numChannel
  let metas ← Exec.repeatTake (rbAlloc alloc) mode.numChannel
  let rxBuffer ← rbAlloc alloc
  let nicTx ← rbAlloc alloc
  let nicRx ← rbAlloc alloc
  let txBuffer ← rbAlloc alloc
  bringUp dev mode netConfig sends metas rxBuffer nicTx nicRx
  -- the last buffer is only asked for when everything runs
  let mttBuffer ← rbAlloc alloc
  return ⟨cmdReq,cmdResp,sends,metas,rxBuffer,nicTx,nicRx,txBuffer,mttBuffer⟩

end Init

end BlueRdma
