import BlueRdma.Framework.Exec
import BlueRdma.Math.Word

namespace BlueRdma.Csr

/-- How an access ends badly: a table index out of range panics, everything else is an I/O error,
of the driver's own or passed on with its text. -/
inductive CsrFault
  | panicked
  | invalidInput (msg : String)
  | io (msg : String)
  deriving DecidableEq

/-- A computation that accesses registers held in `σ`. -/
abbrev Access (σ α : Type) := Exec CsrFault σ α

inductive BlockStart
  | qp
  | cmdQ
  | simpleNic
  deriving DecidableEq

def BlockStart.toNat : BlockStart → Nat
  | .qp => 0x00
  | .cmdQ => 0x40
  | .simpleNic => 0x50

/-- The byte address of a ring's first register; blocks and queues are counted in words. -/
def generateCsrAddrBase (start : BlockStart) (queueIndex : Nat) (isToHost : Bool) : Nat :=
  (start.toNat+queueIndex*0x10+if isToHost then 4 else 0)<<<2

def generateQpArrayStart (isToHost : Bool) : List Nat :=
  [generateCsrAddrBase .qp 0 isToHost,generateCsrAddrBase .qp 1 isToHost,
    generateCsrAddrBase .qp 2 isToHost,generateCsrAddrBase .qp 3 isToHost]

def ringOffsetBaseLow : Nat := 0x00
def ringOffsetBaseHigh : Nat := 0x04
def ringOffsetHead : Nat := 0x08
def ringOffsetTail : Nat := 0x0C

def cmdReqRingBase : Nat := generateCsrAddrBase .cmdQ 0 false
def cmdRespRingBase : Nat := generateCsrAddrBase .cmdQ 0 true
def simpleNicTxRingBase : Nat := generateCsrAddrBase .simpleNic 0 false
def simpleNicRxRingBase : Nat := generateCsrAddrBase .simpleNic 0 true
def qpSendRingBases : List Nat := generateQpArrayStart false
def qpRecvRingBases : List Nat := generateQpArrayStart true

/-- Rings the host produces into. -/
inductive RingSpecToCard
  | cmdReq
  | simpleNicTx
  | send (id : Nat)
  deriving DecidableEq

/-- Rings the card produces into. -/
inductive RingSpecToHost
  | cmdResp
  | simpleNicRx
  | metaReport (id : Nat)
  deriving DecidableEq

inductive RingSpec
  | toCard (r : RingSpecToCard)
  | toHost (r : RingSpecToHost)
  deriving DecidableEq

/-- `QP_SEND_RING_BASES[id]` and its like. -/
def indexed (bases : List Nat) (id : Nat) : Except CsrFault Nat :=
  match bases[id]? with
  | some base => .ok base
  | none => .error .panicked

def RingSpec.csrBase : RingSpec → Except CsrFault Nat
  | .toCard .cmdReq => .ok cmdReqRingBase
  | .toCard .simpleNicTx => .ok simpleNicTxRingBase
  | .toCard (.send id) => indexed qpSendRingBases id
  | .toHost .cmdResp => .ok cmdRespRingBase
  | .toHost .simpleNicRx => .ok simpleNicRxRingBase
  | .toHost (.metaReport id) => indexed qpRecvRingBases id

inductive Mode
  | mode400G
  | mode200G
  | mode100G
  deriving DecidableEq

namespace Mode

instance : Inhabited Mode := ⟨.mode100G⟩

def numChannel : Mode → Nat
  | .mode100G => 1
  | .mode200G => 2
  | .mode400G => 4

def channelIds : Mode → List Nat
  | .mode100G => [0]
  | .mode200G => [0,1]
  | .mode400G => [0,1,2,3]

end Mode

def buildSendRings (mode : Mode) : List RingSpecToCard := mode.channelIds.map .send

def buildMetaReportRings (mode : Mode) : List RingSpecToHost := mode.channelIds.map .metaReport

/-- All the rings the driver sets up in a mode. -/
def builtRings (mode : Mode) : List RingSpec :=
  [.toCard .cmdReq,.toHost .cmdResp,.toCard .simpleNicTx,.toHost .simpleNicRx] ++
    (buildSendRings mode).map .toCard ++ (buildMetaReportRings mode).map .toHost

/-- A backend gives access to one 32-bit register at a byte address. -/
structure DeviceAdaptor (σ : Type) where
  readCsr : Nat → Access σ UInt32
  writeCsr : Nat → UInt32 → Access σ Unit

section Ring
variable {σ : Type} (dev : DeviceAdaptor σ)

def readBaseAddr (spec : RingSpec) : Access σ UInt64 := do
  let lo ← dev.readCsr ((← spec.csrBase)+ringOffsetBaseLow)
  let hi ← dev.readCsr ((← spec.csrBase)+ringOffsetBaseHigh)
  return Word.joinHalves lo hi

def writeBaseAddr (spec : RingSpec) (physAddr : UInt64) : Access σ Unit := do
  dev.writeCsr ((← spec.csrBase)+ringOffsetBaseLow) (Word.lowHalf physAddr)
  dev.writeCsr ((← spec.csrBase)+ringOffsetBaseHigh) (Word.highHalf physAddr)

def writeHead (spec : RingSpecToCard) (head : UInt32) : Access σ Unit := do
  dev.writeCsr ((← (RingSpec.toCard spec).csrBase)+ringOffsetHead) head

def readTail (spec : RingSpecToCard) : Access σ UInt32 := do
  dev.readCsr ((← (RingSpec.toCard spec).csrBase)+ringOffsetTail)

def readHead (spec : RingSpecToHost) : Access σ UInt32 := do
  dev.readCsr ((← (RingSpec.toHost spec).csrBase)+ringOffsetHead)

def writeTail (spec : RingSpecToHost) (tail : UInt32) : Access σ Unit := do
  dev.writeCsr ((← (RingSpec.toHost spec).csrBase)+ringOffsetTail) tail

end Ring

/-- The registers of the mapped BAR, by byte address. -/
abbrev Bar := Nat → UInt32

def unalignedAccess : CsrFault := .invalidInput "unaligned access"

namespace SysfsPciCsrAdaptor

def readCsr (addr : Nat) : Access Bar UInt32 := do
  if addr%4≠0 then throw unalignedAccess
  return (← get) addr

def writeCsr (addr : Nat) (data : UInt32) : Access Bar Unit := do
  if addr%4≠0 then throw unalignedAccess
  modify (Function.update · addr data)

def adaptor : DeviceAdaptor Bar := ⟨readCsr,writeCsr⟩

end SysfsPciCsrAdaptor

/-- The debug registers behind the rings, written without the adaptor. -/
inductive CustomCsr
  | loopback
  | seed (seed : UInt32)
  | dropThresh (rate : UInt8)

namespace CustomCsr

def addr : CustomCsr → Nat
  | .loopback => 0x180
  | .seed _ => 0x184
  | .dropThresh _ => 0x188

def value : CustomCsr → UInt32
  | .loopback => 1
  | .seed s => s
  | .dropThresh rate => rate.toUInt32

/-- `set_loopback`, `set_seed` and `set_drop_thresh`. -/
def set (c : CustomCsr) : Bar → Bar := (Function.update · c.addr c.value)

end CustomCsr

end BlueRdma.Csr
