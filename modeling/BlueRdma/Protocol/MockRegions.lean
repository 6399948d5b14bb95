import BlueRdma.Framework.Run
import BlueRdma.Verbs.Mock.Ctx

namespace BlueRdma
namespace Mock

/-- A registration, with what resolves its first address. -/
structure RegMr where
  addr : UInt64
  length : UInt64
  pa : Except IoError (Option UInt64)

/-- The region of a registration that succeeds. -/
def RegMr.region? (c : RegMr) : Option Mr :=
  match c.pa with
  | .ok (some _) => some ⟨c.addr,c.length⟩
  | _ => none

def registerAll (d : Bool) (h : Host) (cs : List RegMr) : Host :=
  Run.run (fun h c => (h.regMr d c.addr c.length c.pa).next) h cs

/-- All `n` bytes from an address on lie in the region. -/
def Mr.Contains (r : Mr) (a : UInt64) (n : Nat) : Prop :=
  r.addr.toNat≤a.toNat ∧ a.toNat+n ≤ r.addr.toNat+r.length.toNat

theorem regMr_mrTable (d : Bool) (h : Host) (c : RegMr) :
    (h.regMr d c.addr c.length c.pa).next.ctx.mrTable=h.ctx.mrTable++c.region?.toList := by
  obtain ⟨addr,length,pa⟩ := c
  rcases pa with e|pa|pa
  · simp [Host.regMr,RegMr.region?]
  · simp [Host.regMr,RegMr.region?]
  · rw [Host.regMr]
    dsimp only
    split_ifs <;> rfl

theorem registerAll_mrTable (d : Bool) (h : Host) (cs : List RegMr) :
    (registerAll d h cs).ctx.mrTable=h.ctx.mrTable++cs.filterMap RegMr.region? := by
  induction cs generalizing h with
  | nil => simp [registerAll]
  | cons c cs ih =>
      rw [registerAll,Run.run_cons]
      refine (ih _).trans ?_
      rw [regMr_mrTable,List.filterMap_cons,List.append_assoc]
      cases c.region? <;> rfl

theorem region_fits (cs : List RegMr) (hcs : ∀ c∈cs,c.addr.toNat+c.length.toNat<2^64) (r : Mr)
    (hr : r∈cs.filterMap RegMr.region?) : r.addr.toNat+r.length.toNat<2^64 := by
  obtain ⟨c,hc,hregion⟩ := List.mem_filterMap.mp hr
  rw [RegMr.region?] at hregion
  split at hregion
  · obtain rfl := Option.some.inj hregion
    exact hcs c hc
  · cases hregion

theorem placed_ne_nil (a : UInt64) (data : List UInt8) (h : data≠[]) : Memory.placed a data≠[] := by
  simpa [Memory.placed] using h

/-- The data is copied exactly if it ends before the last byte of a region it starts in. -/
theorem writeLocalAddr_copies (d : Bool) (table : List Mr) (a : UInt64) (data : List UInt8)
    (hdata : data≠[]) (hend : a.toNat+data.length<2^64)
    (htable : ∀ r∈table,r.addr.toNat+r.length.toNat<2^64) :
    ∃ stores,writeLocalAddr d table a data=some stores ∧ (stores=Memory.placed a data ↔
      ∃ r∈table,r.Contains a (data.length+1)) := by
  have hlen : (UInt64.ofNat data.length).toNat=data.length :=
    UInt64.toNat_ofNat_of_lt' (show data.length<2^64 by omega)
  refine ⟨_,by rw [writeLocalAddr,valid_eq d a _ table (by omega) htable,Option.map_some],?_⟩
  rw [hlen]
  split_ifs with hany
  · refine iff_of_true rfl ?_
    obtain ⟨r,hr,hin⟩ := List.any_eq_true.mp hany
    have hin := of_decide_eq_true hin
    exact ⟨r,hr,hin.1,by omega⟩
  · refine iff_of_false (placed_ne_nil a data hdata).symm ?_
    rintro ⟨r,hr,hlo,hhi⟩
    exact hany (List.any_eq_true.mpr ⟨r,hr,decide_eq_true ⟨hlo,by omega⟩⟩)

/-- The data that a message brings for local memory, and where it belongs. -/
def QpTransportMessage.payload? (t : QpThread) : QpTransportMessage → Option (UInt64 × List UInt8)
  | .writeReq r | .writeWithImmReq r => some (r.raddr,r.data)
  | .sendReq r => t.recvReqs.head?.map (fun wr => (wr.addr,r.data))
  | .readResp r => some (r.laddr,r.data)
  | _ => none

theorem handle_payload (mem : Memory) (t : QpThread) (msg : QpTransportMessage)
    (x : UInt64 × List UInt8) (h : msg.payload? t=some x) :
    ∃ turn,t.handle mem msg=some turn ∧ turn.write=some x := by
  cases msg with
  | writeReq r => exact ⟨_,rfl,h⟩
  | writeWithImmReq r => exact ⟨_,rfl,h⟩
  | sendReq r =>
      obtain ⟨wr,hwr,rfl⟩ := Option.map_eq_some_iff.mp h
      obtain ⟨rest,hrest⟩ := List.head?_eq_some_iff.mp hwr
      rw [QpThread.handle,hrest]
      exact ⟨_,rfl,rfl⟩
  | readResp r => exact ⟨_,rfl,h⟩
  | _ => cases h

/-- Whatever was registered and whatever message brings the data: it is copied just when a region
contains it, exactly if none contains it or one contains a byte more. -/
theorem write_exact_iff (d : Bool) (h : Host) (hfresh : h.ctx.mrTable=[]) (cs : List RegMr)
    (hcs : ∀ c∈cs,c.addr.toNat+c.length.toNat<2^64) (mem : Memory) (t : QpThread)
    (msg : QpTransportMessage) (a : UInt64) (data : List UInt8)
    (hpayload : msg.payload? t=some (a,data)) (hdata : data≠[])
    (hend : a.toNat+data.length<2^64) :
    ∃ turn stores,t.handle mem msg=some turn ∧
      turn.stores d (registerAll d h cs).ctx.mrTable=some stores ∧
      ((stores=Memory.placed a data ↔ ∃ c∈cs,∃ r,c.region?=some r ∧ r.Contains a data.length) ↔
        ((∃ c∈cs,∃ r,c.region?=some r ∧ r.Contains a data.length) →
          ∃ c∈cs,∃ r,c.region?=some r ∧ r.Contains a (data.length+1))) := by
  have htable := registerAll_mrTable d h cs
  rw [hfresh,List.nil_append] at htable
  obtain ⟨turn,hturn,hwrite⟩ := handle_payload mem t msg (a,data) hpayload
  obtain ⟨stores,hstores,hiff⟩ := writeLocalAddr_copies d (registerAll d h cs).ctx.mrTable a data
    hdata hend (by rw [htable]; exact region_fits cs hcs)
  refine ⟨turn,stores,hturn,by rw [Turn.stores,hwrite]; exact hstores,?_⟩
  have hregions (n : Nat) : (∃ r∈(registerAll d h cs).ctx.mrTable,r.Contains a n) ↔
      ∃ c∈cs,∃ r,c.region?=some r ∧ r.Contains a n := by
    rw [htable]
    constructor
    · rintro ⟨r,hr,hin⟩
      obtain ⟨c,hc,hregion⟩ := List.mem_filterMap.mp hr
      exact ⟨c,hc,r,hregion,hin⟩
    · rintro ⟨c,hc,r,hregion,hin⟩
      exact ⟨r,List.mem_filterMap.mpr ⟨c,hc,hregion⟩,hin⟩
  rw [hiff,hregions]
  constructor
  · exact fun hboth => hboth.mpr
  · intro himp
    refine ⟨?_,himp⟩
    rintro ⟨c,hc,r,hregion,hlo,hhi⟩
    exact ⟨c,hc,r,hregion,hlo,by omega⟩

/-- A region of sixteen bytes, and a write of its last four. -/
def lastBytes : RdmaWriteReq := ⟨0x100C,0,[1,2,3,4],7,true⟩

theorem write_exact_iff_lastBytes :
    ∃ turn stores,(⟨0x100,some 1,some 2,[],[],.running⟩ : QpThread).handle (fun _ => 0)
        (.writeReq lastBytes)=some turn ∧
      turn.stores true (registerAll true {} [⟨0x1000,16,.ok (some 0)⟩]).ctx.mrTable=some stores ∧
      stores≠Memory.placed 0x100C [1,2,3,4] := by
  obtain ⟨turn,stores,hturn,hstores,hiff⟩ := write_exact_iff true {} rfl
    [⟨0x1000,16,.ok (some 0)⟩] (by simp) (fun _ => 0) ⟨0x100,some 1,some 2,[],[],.running⟩
    (.writeReq lastBytes) 0x100C [1,2,3,4] rfl (by simp) (by decide)
  refine ⟨turn,stores,hturn,hstores,fun hcopied => ?_⟩
  have hcontains : ∃ c∈[(⟨0x1000,16,.ok (some 0)⟩ : RegMr)],∃ r,c.region?=some r ∧
      r.Contains 0x100C [1,2,3,4].length :=
    ⟨_,List.mem_singleton_self _,_,rfl,by decide,by decide⟩
  obtain ⟨c,hc,r,hregion,-,hhi⟩ := hiff.mp (iff_of_true hcopied hcontains) hcontains
  obtain rfl := List.mem_singleton.mp hc
  obtain rfl := Option.some.inj hregion
  exact absurd hhi (by decide)

/-- The write is dropped, and acknowledged. -/
theorem lastBytes_dropped :
    writeLocalAddr true (registerAll true {} [⟨0x1000,16,.ok (some 0)⟩]).ctx.mrTable 0x100C
        [1,2,3,4]=some [] ∧
      (((⟨0x100,some 1,some 2,[],[],.running⟩ : QpThread).handle (fun _ => 0)
        (.writeReq lastBytes)).bind Turn.reply)=some (.writeResp ⟨7,true⟩) :=
  ⟨by decide +kernel,rfl⟩

end Mock
end BlueRdma
