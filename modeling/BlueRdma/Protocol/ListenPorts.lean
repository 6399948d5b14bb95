import BlueRdma.Verbs.Handles
import BlueRdma.Verbs.Qp

namespace BlueRdma

/-- The hash of the difference of two QP numbers, taken from the one with the smaller hash. -/
def hashGap (q q' : UInt32) : UInt32 :=
  if qpnHash q≤qpnHash q' then qpnHash (q'-q) else qpnHash (q-q')

theorem qpnHash_sub (q q' : UInt32) : qpnHash (q'-q)=qpnHash q'-qpnHash q := UInt32.sub_mul

/-- The sum does not overflow. -/
theorem qpnToPort_toNat (q : UInt32) : (qpnToPort q).toNat=60000+(qpnHash q).toNat%5535 := by
  have hlt : (qpnHash q).toNat%5535<5535 := Nat.mod_lt _ (by decide)
  rw [qpnToPort,UInt16.toNat_add,UInt32.toNat_toUInt16,UInt32.toNat_mod]
  change (60000+(qpnHash q).toNat%5535%2^16)%2^16=_
  omega

/-- The hash is linear, so its gap between two QP numbers is the hash of their difference. -/
theorem hashGap_toNat (q q' : UInt32) : (hashGap q q').toNat=
    max (qpnHash q).toNat (qpnHash q').toNat-min (qpnHash q).toNat (qpnHash q').toNat := by
  rw [hashGap,qpnHash_sub,qpnHash_sub]
  split_ifs with hle
  · have hnat := UInt32.le_iff_toNat_le.mp hle
    rw [UInt32.toNat_sub_of_le _ _ hle,max_eq_right hnat,min_eq_left hnat]
  · have hle' : qpnHash q'≤qpnHash q := UInt32.le_of_lt (UInt32.not_le.mp hle)
    have hnat := UInt32.le_iff_toNat_le.mp hle'
    rw [UInt32.toNat_sub_of_le _ _ hle',max_eq_left hnat,min_eq_right hnat]

theorem qpnToPort_eq_iff (q q' : UInt32) :
    qpnToPort q=qpnToPort q' ↔ portRange.toNat∣(hashGap q q').toNat := by
  rw [← UInt16.toNat_inj,qpnToPort_toNat,qpnToPort_toNat,hashGap_toNat,
    show portRange.toNat=5535 from rfl]
  omega

/-- The live QPs of a run of calls with any handles and any random keys. Each has a port of its
own, and can listen while the other one does, exactly if the hash of their difference is not a
multiple of the number of ports. -/
theorem live_ports_differ_iff (ops : List (HandleOp UInt8 UInt32)) :
    ∀ q∈(Run.run qpHandles.step qpHandles.desk ops).live,
    ∀ q'∈(Run.run qpHandles.step qpHandles.desk ops).live,q≠q' →
      basePort.toNat+(qpnHash q%portRange).toNat<2^16 ∧
      (qpnToPort q).toNat=basePort.toNat+(qpnHash q%portRange).toNat ∧
      (qpnToPort q≠qpnToPort q' ↔ ¬portRange.toNat∣(hashGap q q').toNat) ∧
      ∀ addr,(∃ s,TcpChannelRx.listen [(addr,qpnToPort q)] addr q'=.ok s) ↔
        ¬portRange.toNat∣(hashGap q q').toNat := by
  intro q _ q' _ _
  have hport := qpnToPort_toNat q
  have hmod : (qpnHash q%portRange).toNat=(qpnHash q).toNat%5535 := UInt32.toNat_mod ..
  have hlt : (qpnHash q).toNat%5535<5535 := Nat.mod_lt _ (by decide)
  refine ⟨?_,?_,not_congr (qpnToPort_eq_iff q q'),?_⟩
  · rw [hmod,show basePort.toNat=60000 from rfl]
    omega
  · rw [hmod,hport]
    rfl
  · intro addr
    rw [← qpnToPort_eq_iff,TcpChannelRx.listen]
    simp only [List.mem_singleton,Prod.mk.injEq,true_and,eq_comm]
    split_ifs with heq
    · simp [heq]
    · simp [heq]

theorem live_ports_differ_iff_zeroKeys :
    (Run.run qpHandles.step qpHandles.desk [.create 0,.create 0]).live=[0x100,0x200] ∧
    qpnToPort 0x100≠qpnToPort 0x200 := by
  have hlive : (Run.run qpHandles.step qpHandles.desk [.create 0,.create 0]).live=[0x100,0x200] := by
    decide +kernel
  refine ⟨hlive,(live_ports_differ_iff [.create 0,.create 0] 0x100 ?_ 0x200 ?_ ?_).2.2.1.mpr ?_⟩
  · rw [hlive]
    decide
  · rw [hlive]
    decide
  · decide
  · decide

/-- A device on which QPs with the given random keys were created. -/
def withQps (ip : UInt32) (keys : List UInt8) : HwDeviceCtx :=
  keys.foldl (fun d key => (d.createQp ⟨2,some 0,some 0⟩ key).next) (.initialized ip)

/-- Two QPs are created with the keys 1 and 26 and get the same port. While the first one listens
the second one cannot be connected. -/
theorem live_qps_share_port :
    (Run.run qpHandles.step qpHandles.desk [.create 1,.create 26]).live=[0x101,0x21A] ∧
    qpnToPort 0x101=61990 ∧ qpnToPort 0x21A=61990 ∧
    ((withQps 1 [1,26]).updateQp 0x21A {destQpIp := some 2,destQpNum := some 0x100}
      {bind := (TcpChannelRx.listen [(1,qpnToPort 0x101)] 1 0x21A).map (fun _ => ())}).result=
      some (.error (.ioError (.other "Address already in use (os error 98)"))) := by
  refine ⟨by decide +kernel,by decide,by decide,by decide +kernel⟩

end BlueRdma
