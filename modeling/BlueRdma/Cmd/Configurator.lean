import BlueRdma.RdmaUtils.Mtt

namespace BlueRdma

def cardMacAddress : UInt64 := 0xAABBCCDDEE0A

/-- First stage table entry of a memory region. -/
structure MttUpdate where
  mrBaseVa : UInt64
  mrLength : UInt32
  mrKey : UInt32
  pdHandler : UInt32
  accFlags : UInt8
  basePgtOffset : UInt32
  deriving DecidableEq

/-- Second stage table entries, read by the device from a buffer. -/
structure PgtUpdate where
  dmaAddr : UInt64
  pgtOffset : UInt32
  zeroBasedEntryCount : UInt32
  deriving DecidableEq

structure UpdateQp where
  ipAddr : UInt32 := 0
  qpn : UInt32 := 0
  peerQpn : UInt32 := 0
  rqAccessFlags : UInt8 := 0
  qpType : UInt8 := 0
  pmtu : UInt8 := 0
  localUdpPort : UInt16 := 0
  peerMacAddr : UInt64 := 0
  deriving DecidableEq

/-- Commands on the command queue; the buffer's contents are kept with the command that reads
them. -/
inductive CmdQueueDesc
  | updateMrTable (x : MttUpdate)
  | updatePgt (x : PgtUpdate) (buf : List UInt64)
  | manageQp (x : UpdateQp)
  deriving DecidableEq

namespace CommandConfigurator

/-- `u17::from_u32` panics on an offset that does not fit. -/
def updateMtt (x : MttUpdate) : Option CmdQueueDesc :=
  if x.basePgtOffset.toNat<2^17 then some (.updateMrTable x) else none

end CommandConfigurator

/-- The device's first stage table: for each key index the descriptor written last. -/
def deviceMrTable (cmds : List CmdQueueDesc) : List MttUpdate :=
  cmds.foldl (fun t c => match c with
    | .updateMrTable x => t.filter (fun y => Mtt.keyIndex y.mrKey≠Mtt.keyIndex x.mrKey)++[x]
    | .updatePgt _ _ | .manageQp _ => t) []

theorem deviceMrTable_append (cmds cmds' : List CmdQueueDesc)
    (h : ∀ c∈cmds',∃ x buf,c=.updatePgt x buf) :
    deviceMrTable (cmds++cmds')=deviceMrTable cmds := by
  induction cmds' using List.reverseRecOn with
  | nil => rw [List.append_nil]
  | append_singleton cs c ih =>
      obtain ⟨x,buf,rfl⟩ := h c (by simp)
      rw [← List.append_assoc,deviceMrTable,List.foldl_append]
      exact ih (fun c hc => h c (by simp [hc]))

theorem deviceMrTable_update (cmds : List CmdQueueDesc) (x : MttUpdate) :
    deviceMrTable (cmds++[.updateMrTable x])=
      (deviceMrTable cmds).filter (fun y => Mtt.keyIndex y.mrKey≠Mtt.keyIndex x.mrKey)++[x] := by
  simp [deviceMrTable]

end BlueRdma
