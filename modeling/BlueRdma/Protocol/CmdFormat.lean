import BlueRdma.Descriptors.Send
import BlueRdma.Protocol.CmdSerial

namespace BlueRdma
open BitField

/-- A command as the device understands it. -/
inductive DeviceCommand
  | updateMrTable (x : MttUpdate)
  | updatePgt (x : PgtUpdate)
  | manageQp (x : UpdateQp) (isError isValid : Bool)
  | setNetworkParam (gateway netmask ipAddr : UInt32) (macAddr : UInt64)
  | setRawPacketReceiveMeta (writeBaseAddr : UInt64)
  deriving DecidableEq

namespace DeviceCommand

/-- The operator of the header selects the layout. -/
def ofWords (t : DescWords) : Option DeviceCommand :=
  match t.header.opCode.toNat with
  | 0 => some (.updateMrTable {
      mrBaseVa := CmdQueueReqDescUpdateMrTable.mrBaseVa t
      mrLength := CmdQueueReqDescUpdateMrTable.mrLength t
      mrKey := CmdQueueReqDescUpdateMrTable.mrKey t
      pdHandler := CmdQueueReqDescUpdateMrTable.reserved1 t
      accFlags := CmdQueueReqDescUpdateMrTable.accFlags t
      basePgtOffset := CmdQueueReqDescUpdateMrTable.pgtOffset t})
  | 1 => some (.updatePgt {
      dmaAddr := CmdQueueReqDescUpdatePGT.dmaAddr t
      pgtOffset := CmdQueueReqDescUpdatePGT.startIndex t
      zeroBasedEntryCount := CmdQueueReqDescUpdatePGT.zeroBasedEntryCount t})
  | 2 => some (.manageQp {
      ipAddr := CmdQueueReqDescQpManagement.ipAddr t
      qpn := CmdQueueReqDescQpManagement.qpn t
      peerQpn := CmdQueueReqDescQpManagement.peerQpn t
      rqAccessFlags := CmdQueueReqDescQpManagement.rqAccessFlags t
      qpType := CmdQueueReqDescQpManagement.qpType t
      pmtu := CmdQueueReqDescQpManagement.pmtu t
      localUdpPort := CmdQueueReqDescQpManagement.localUdpPort t
      peerMacAddr := CmdQueueReqDescQpManagement.peerMacAddr t}
      (CmdQueueReqDescQpManagement.isError t) (CmdQueueReqDescQpManagement.isValid t))
  | 3 => some (.setNetworkParam (CmdQueueReqDescSetNetworkParam.gateway t)
      (CmdQueueReqDescSetNetworkParam.netmask t) (CmdQueueReqDescSetNetworkParam.ipAddr t)
      (CmdQueueReqDescSetNetworkParam.macAddr t))
  | 4 => some (.setRawPacketReceiveMeta (CmdQueueReqDescSetRawPacketReceiveMeta.writeBaseAddr t))
  | _ => none

def decode (d : DescBytes) : Option DeviceCommand := ofWords (DescWords.ofBytes d)

end DeviceCommand

/-- The QP entry as far as its fields have room for it. -/
def UpdateQp.masked (x : UpdateQp) : UpdateQp :=
  {x with
    qpn := x.qpn&&&0xFFFFFF
    peerQpn := x.peerQpn&&&0xFFFFFF
    qpType := x.qpType&&&0xF
    pmtu := x.pmtu&&&7
    peerMacAddr := x.peerMacAddr&&&0xFFFFFFFFFFFF}

/-- What a call asks of the device. -/
def CmdCall.meaning : CmdCall → DeviceCommand
  | .updateMtt x => .updateMrTable x
  | .updatePgt x => .updatePgt x
  | .updateQp x => .manageQp x.masked false true
  | .setNetwork x => .setNetworkParam (x.gateway.getD 0) x.mask x.ip cardMacAddress
  | .setRawPacketRecvBuffer x => .setRawPacketReceiveMeta x.physAddr

/-- A field of a word is read back. -/
theorem bitWord_field (fs : List Field) (hw : width fs=64) (i w : Nat) (v : BitVec w)
    (h : fs[i]?=some ⟨w,v⟩) : field w (width (fs.take i)) (bitWord fs).toNat=v := by
  rw [bitWord_toNat fs hw]
  exact field_pack fs i w v h

theorem cmdHeaderWord_opCode (low : BitVec 32) (operator : CmdQueueDescOperators) (t : DescWords)
    (ht : t.c3=cmdHeaderWord low 0 operator) : t.header.opCode=operator.toUInt8.toBitVec := by
  have hhead : field 16 48 t.c3.toNat=(RingBufDescCommonHead.newCmdDesc operator).value := by
    rw [ht,cmdHeaderWord]
    exact bitWord_field _ rfl 4 16 _ rfl
  rw [DescWords.header,hhead,RingBufDescCommonHead.ofValue_value]
  rfl

section ReadBack
variable (t : DescWords)

theorem updateMtt_meaning (x : MttUpdate) (h : (CmdCall.updateMtt x).desc=some t) :
    DeviceCommand.ofWords t=some (.updateMrTable x) := by
  rw [CmdCall.desc,CmdQueueReqDescUpdateMrTable.new] at h
  split_ifs at h with hsmall
  obtain rfl := Option.some.inj h
  rw [DeviceCommand.ofWords,cmdHeaderWord_opCode 0 .updateMrTable _ rfl]
  have hoffset : (x.basePgtOffset.toBitVec.setWidth 17).setWidth 32=x.basePgtOffset.toBitVec :=
    setWidth_back x.basePgtOffset.toBitVec 17 hsmall
  refine congrArg (fun y => some (DeviceCommand.updateMrTable y))
    ((MttUpdate.mk.injEq ..).mpr ⟨?_,?_,?_,?_,?_,?_⟩)
  · exact congrArg UInt64.ofBitVec (bitWord_field _ rfl 0 64 _ rfl)
  · exact congrArg UInt32.ofBitVec (bitWord_field _ rfl 1 32 _ rfl)
  · exact congrArg UInt32.ofBitVec (bitWord_field _ rfl 0 32 _ rfl)
  · exact congrArg UInt32.ofBitVec (bitWord_field _ rfl 3 32 _ rfl)
  · exact congrArg UInt8.ofBitVec (bitWord_field _ rfl 2 8 _ rfl)
  · exact congrArg UInt32.ofBitVec
      ((congrArg (BitVec.setWidth 32) (bitWord_field _ rfl 1 17 _ rfl)).trans hoffset)

theorem updatePgt_meaning (x : PgtUpdate) (h : (CmdCall.updatePgt x).desc=some t) :
    DeviceCommand.ofWords t=some (.updatePgt x) := by
  obtain rfl := Option.some.inj h
  rw [DeviceCommand.ofWords,cmdHeaderWord_opCode 0 .updatePgt _ rfl]
  refine congrArg (fun y => some (DeviceCommand.updatePgt y))
    ((PgtUpdate.mk.injEq ..).mpr ⟨?_,?_,?_⟩)
  · exact congrArg UInt64.ofBitVec (bitWord_field _ rfl 0 64 _ rfl)
  · exact congrArg UInt32.ofBitVec (bitWord_field _ rfl 1 32 _ rfl)
  · exact congrArg UInt32.ofBitVec (bitWord_field _ rfl 0 32 _ rfl)

/-- Numbers of QPs, the path MTU, the type and the address are cut to their fields. -/
theorem updateQp_meaning (x : UpdateQp) (h : (CmdCall.updateQp x).desc=some t) :
    DeviceCommand.ofWords t=some (.manageQp x.masked false true) := by
  have hop := cmdHeaderWord_opCode x.ipAddr.toBitVec .manageQp t (by
    rw [← Option.some.inj h]
    rfl)
  rw [DeviceCommand.ofWords,hop]
  obtain rfl := Option.some.inj h
  refine congrArg some ((DeviceCommand.manageQp.injEq ..).mpr
    ⟨(UpdateQp.mk.injEq ..).mpr ⟨?_,?_,?_,?_,?_,?_,?_,?_⟩,?_,?_⟩)
  · exact congrArg UInt32.ofBitVec (bitWord_field _ rfl 0 32 _ rfl)
  · exact congrArg UInt32.ofBitVec ((congrArg (BitVec.setWidth 32)
      (bitWord_field _ rfl 1 24 _ rfl)).trans (setWidth_mask _ 24 (by decide)))
  · exact congrArg UInt32.ofBitVec ((congrArg (BitVec.setWidth 32)
      (bitWord_field _ rfl 6 24 _ rfl)).trans (setWidth_mask _ 24 (by decide)))
  · exact congrArg UInt8.ofBitVec (bitWord_field _ rfl 5 8 _ rfl)
  · exact congrArg UInt8.ofBitVec ((congrArg (BitVec.setWidth 8)
      (bitWord_field _ rfl 4 4 _ rfl)).trans (setWidth_mask _ 4 (by decide)))
  · exact congrArg UInt8.ofBitVec ((congrArg (BitVec.setWidth 8)
      (bitWord_field _ rfl 2 3 _ rfl)).trans (setWidth_mask _ 3 (by decide)))
  · exact congrArg UInt16.ofBitVec (bitWord_field _ rfl 1 16 _ rfl)
  · exact congrArg UInt64.ofBitVec ((congrArg (BitVec.setWidth 64)
      (bitWord_field _ rfl 0 48 _ rfl)).trans (setWidth_mask _ 48 (by decide)))
  · exact (congrArg (flag 62) (bitWord_toNat _ rfl)).trans (flag_pack _ 3 false rfl)
  · exact (congrArg (flag 63) (bitWord_toNat _ rfl)).trans (flag_pack _ 4 true rfl)

theorem setNetwork_meaning (x : NetworkConfig) (h : (CmdCall.setNetwork x).desc=some t) :
    DeviceCommand.ofWords t=
      some (.setNetworkParam (x.gateway.getD 0) x.mask x.ip cardMacAddress) := by
  obtain rfl := Option.some.inj h
  rw [DeviceCommand.ofWords,cmdHeaderWord_opCode 0 .setNetworkParam _ rfl]
  refine congrArg some ((DeviceCommand.setNetworkParam.injEq ..).mpr ⟨?_,?_,?_,?_⟩)
  · exact congrArg UInt32.ofBitVec (bitWord_field _ rfl 1 32 _ rfl)
  · exact congrArg UInt32.ofBitVec (bitWord_field _ rfl 0 32 _ rfl)
  · exact congrArg UInt32.ofBitVec (bitWord_field _ rfl 1 32 _ rfl)
  · exact congrArg UInt64.ofBitVec ((congrArg (BitVec.setWidth 64)
      (bitWord_field _ rfl 1 48 _ rfl)).trans (by decide))

theorem setRawPacketRecvBuffer_meaning (x : RecvBufferMeta)
    (h : (CmdCall.setRawPacketRecvBuffer x).desc=some t) :
    DeviceCommand.ofWords t=some (.setRawPacketReceiveMeta x.physAddr) := by
  obtain rfl := Option.some.inj h
  rw [DeviceCommand.ofWords,cmdHeaderWord_opCode 0 .setRawPacketReceiveMeta _ rfl]
  exact congrArg (fun y => some (DeviceCommand.setRawPacketReceiveMeta y))
    (congrArg UInt64.ofBitVec (bitWord_field _ rfl 0 64 _ rfl))

/-- A call that builds a descriptor is understood. -/
theorem CmdCall.decode_desc (c : CmdCall) (h : c.desc=some t) :
    DeviceCommand.decode t.toBytes=some c.meaning := by
  rw [DeviceCommand.decode,DescWords.ofBytes_toBytes]
  cases c with
  | updateMtt x => exact updateMtt_meaning t x h
  | updatePgt x => exact updatePgt_meaning t x h
  | updateQp x => exact updateQp_meaning t x h
  | setNetwork x => exact setNetwork_meaning t x h
  | setRawPacketRecvBuffer x => exact setRawPacketRecvBuffer_meaning t x h

end ReadBack

namespace CmdSystem

/-- The call a step makes, unless it panics. -/
def issued : CmdStep → List CmdCall
  | .call c => (c.desc.map fun _ => c).toList
  | _ => []

/-- The calls made in a run, in order. -/
def made (ls : List CmdStep) : List CmdCall := ls.flatMap issued

theorem step_calls (s : CmdSystem) (l : CmdStep) :
    (s.step l).calls.map some=s.calls.map some++(issued l).map CmdCall.desc := by
  cases l with
  | call c =>
      rcases hdesc : c.desc with _|desc
      · simp [step,issued,hdesc]
      · simp [step,issued,hdesc]
  | lock j | next | fetch | execute | pass | answer resp =>
      rw [step_keeps_calls s _ (by simp)]
      exact (List.append_nil _).symm

theorem run_calls (ls : List CmdStep) :
    (Run.run step init ls).calls.map some=(made ls).map CmdCall.desc := by
  induction ls using List.reverseRecOn with
  | nil => rfl
  | append_singleton ls l ih =>
      rw [Run.run_concat,step_calls,ih]
      simp [made]

/-- A call gets the lock once. -/
theorem step_nodup (s : CmdSystem) (l : CmdStep) (h : (s.posted.map Prod.fst).Nodup) :
    ((s.step l).posted.map Prod.fst).Nodup := by
  cases l with
  | lock j =>
      simp only [step]
      split
      · exact h
      · split_ifs with hfree
        · rw [List.map_append]
          exact List.nodup_append'.mpr ⟨h,List.nodup_singleton j,by simpa using hfree.2⟩
        · exact h
  | call c =>
      simp only [step]
      split <;> exact h
  | next | fetch | execute | pass | answer resp => rwa [(step_records s _ rfl).2]

/-- The descriptor posted for a call is the one the call has built. -/
theorem posted_made (ls : List CmdStep) (x : Nat × DescWords)
    (hx : (Run.run step init ls).calls[x.1]?=some x.2) :
    ∃ c,(made ls)[x.1]?=some c ∧ c.desc=some x.2 := by
  have hcalls := congrArg (fun l => l[x.1]?) (run_calls ls)
  simp only [List.getElem?_map,hx,Option.map_some] at hcalls
  obtain ⟨c,hc,hdesc⟩ := Option.map_eq_some_iff.mp hcalls.symm
  exact ⟨c,hc,hdesc⟩

/-- In every interleaving of callers and device: the commands the device has executed, read field by
field, are those the calls that got the lock have asked for, in the order they got it and once each,
and a call returns only when its own command has been executed. -/
theorem executed_as_called (ls : List CmdStep) :
    let s := Run.run step init ls
    (s.posted.map Prod.fst).Nodup ∧
    s.executed.map DeviceCommand.decode=((s.posted.map Prod.fst).take s.executed.length).map
      (fun j => (made ls)[j]?.map CmdCall.meaning) ∧
    ∀ j∈s.returned,∃ c,(made ls)[j]?=some c ∧ some c.meaning∈s.executed.map DeviceCommand.decode := by
  intro s
  obtain ⟨low,told,hinv⟩ : ∃ low told,Inv s low told :=
    Run.run_inv_all step (fun s => ∃ low told,Inv s low told) step_inv init ls ⟨0,0,init_inv⟩
  have hserial := hinv.serial
  have hdecode (x : Nat × DescWords) (hx : x∈s.posted) :
      DeviceCommand.decode x.2.toBytes=(made ls)[x.1]?.map CmdCall.meaning := by
    obtain ⟨c,hc,hdesc⟩ := posted_made ls x (hserial.own x hx)
    rw [c.decode_desc x.2 hdesc,hc]
    rfl
  have hexecuted : s.executed.map DeviceCommand.decode=
      ((s.posted.map Prod.fst).take s.executed.length).map
        (fun j => (made ls)[j]?.map CmdCall.meaning) := by
    conv_lhs => rw [List.prefix_iff_eq_take.mp hserial.executed,commands]
    rw [← List.map_take,← List.map_take,List.map_map,List.map_map]
    exact List.map_congr_left fun x hx => hdecode x (List.mem_of_mem_take hx)
  refine ⟨?_,hexecuted,?_⟩
  · exact Run.run_inv_all step (fun s => (s.posted.map Prod.fst).Nodup) step_nodup init ls
      List.nodup_nil
  · intro j hj
    obtain ⟨k,hk⟩ := List.mem_iff_getElem?.mp hj
    have hklt : k < s.returned.length := (List.getElem?_eq_some_iff.mp hk).1
    have hposted : (s.posted.map Prod.fst)[k]?=some j := by
      obtain ⟨more,hmore⟩ := hserial.returned
      rw [← hmore,List.getElem?_append_left hklt,hk]
    obtain ⟨x,hx,rfl⟩ := Option.map_eq_some_iff.mp ((List.getElem?_map ..).symm.trans hposted)
    obtain ⟨c,hc,-⟩ := posted_made ls x (hserial.own x (List.mem_of_getElem? hx))
    refine ⟨c,hc,?_⟩
    rw [hexecuted]
    refine List.mem_map.mpr ⟨x.1,List.mem_of_getElem? (i := k) ?_,by rw [hc]; rfl⟩
    rw [List.getElem?_take_of_lt (hklt.trans_le hserial.after),hposted]

end CmdSystem
end BlueRdma
