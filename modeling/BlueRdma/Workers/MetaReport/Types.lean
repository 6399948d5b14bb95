import BlueRdma.RdmaUtils.Psn

namespace BlueRdma

/-- The position of a packet in its message. -/
inductive PacketPos
  | first
  | middle
  | last
  | only
  deriving DecidableEq

/-- `matches!(pos, PacketPos::Last | PacketPos::Only)`. -/
def PacketPos.endsMessage : PacketPos → Bool
  | .last | .only => true
  | .first | .middle => false

inductive HeaderType
  | write
  | writeWithImm
  | send
  | sendWithImm
  | readResp
  deriving DecidableEq

/-- Header of a packet that carries data. -/
structure HeaderWriteMeta where
  pos : PacketPos
  msn : UInt16
  psn : Psn
  ackReq : Bool
  isRetry : Bool
  imm : UInt32
  headerType : HeaderType
  deriving DecidableEq

/-- Header of a read request. -/
structure HeaderReadMeta where
  msn : UInt16
  psn : Psn
  raddr : UInt64
  rkey : UInt32
  totalLen : UInt32
  laddr : UInt64
  lkey : UInt32
  ackReq : Bool
  deriving DecidableEq

structure AckMetaLocalHw where
  psnNow : Psn
  nowBitmap : BitVec 128
  deriving DecidableEq

structure AckMetaRemoteDriver where
  psnNow : Psn
  deriving DecidableEq

structure NakMetaLocalHw where
  psnNow : Psn
  nowBitmap : BitVec 128
  psnPre : Psn
  preBitmap : BitVec 128
  deriving DecidableEq

structure NakMetaRemoteHw where
  msn : UInt16
  psnNow : Psn
  nowBitmap : BitVec 128
  psnPre : Psn
  preBitmap : BitVec 128
  deriving DecidableEq

structure NakMetaRemoteDriver where
  psnNow : Psn
  psnPre : Psn
  deriving DecidableEq

/-- What the device reports about one QP. -/
inductive ReportMeta
  | headerWrite (x : HeaderWriteMeta)
  | headerRead (x : HeaderReadMeta)
  | ackLocalHw (x : AckMetaLocalHw)
  | ackRemoteDriver (x : AckMetaRemoteDriver)
  | nakLocalHw (x : NakMetaLocalHw)
  | nakRemoteHw (x : NakMetaRemoteHw)
  | nakRemoteDriver (x : NakMetaRemoteDriver)
  | cnp
  deriving DecidableEq

namespace ReportMeta

/-- PSN fields are 24 bits wide in the report descriptors. -/
def Valid : ReportMeta → Prop
  | .headerWrite x => x.psn.Valid
  | .headerRead x => x.psn.Valid
  | .ackLocalHw x => x.psnNow.Valid
  | .ackRemoteDriver x => x.psnNow.Valid
  | .nakLocalHw x => x.psnNow.Valid ∧ x.psnPre.Valid
  | .nakRemoteHw x => x.psnNow.Valid ∧ x.psnPre.Valid
  | .nakRemoteDriver x => x.psnNow.Valid ∧ x.psnPre.Valid
  | .cnp => True

instance (m : ReportMeta) : Decidable m.Valid :=
  match m with
  | .headerWrite x => inferInstanceAs (Decidable x.psn.Valid)
  | .headerRead x => inferInstanceAs (Decidable x.psn.Valid)
  | .ackLocalHw x => inferInstanceAs (Decidable x.psnNow.Valid)
  | .ackRemoteDriver x => inferInstanceAs (Decidable x.psnNow.Valid)
  | .nakLocalHw x => inferInstanceAs (Decidable (x.psnNow.Valid ∧ x.psnPre.Valid))
  | .nakRemoteHw x => inferInstanceAs (Decidable (x.psnNow.Valid ∧ x.psnPre.Valid))
  | .nakRemoteDriver x => inferInstanceAs (Decidable (x.psnNow.Valid ∧ x.psnPre.Valid))
  | .cnp => inferInstanceAs (Decidable True)

end ReportMeta
end BlueRdma
