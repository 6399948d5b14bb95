import BlueRdma.Framework.Run
import BlueRdma.Math.Memory
import BlueRdma.Math.Word
import BlueRdma.Mem.PaVaMap

namespace BlueRdma

/-- Memory access request from the simulator. -/
structure SimpleMemRequest where
  requestType : String
  channelId : UInt32
  address : UInt64
  length : UInt64
  data : Option (List UInt8) := none
  startByteIndex : Option UInt64 := none
  isFirst : Option Bool := none
  isLast : Option Bool := none
  requestId : Option String := none

/-- Memory access response to the simulator. -/
structure SimpleMemResponse where
  responseType : String
  channelId : UInt32
  data : Option (List UInt8)
  startByteIndex : Option UInt64
  isFirst : Option Bool
  isLast : Option Bool
  requestId : Option String

namespace SimpleMemoryProxyClient

/-- There is no response after a panic: the address is not mapped, or too little is left behind
it. -/
def handleReadRequest (m : PaVaMap) (mem : Memory) (req : SimpleMemRequest) :
    Option SimpleMemResponse :=
  match m.lookup req.address with
  | none => none
  | some (virAddr,remainLen) =>
    if req.length ≤ remainLen then
      some {
        responseType := "mem_read_response"
        channelId := req.channelId
        data := some (mem.read virAddr req.length.toNat)
        startByteIndex := req.startByteIndex
        isFirst := req.isFirst
        isLast := req.isLast
        requestId := req.requestId }
    else none

/-- The stores of a write request, unless it panics. The loop runs over the data, not up to the
length that was checked. -/
def handleWriteRequest (m : PaVaMap) (req : SimpleMemRequest) : Option (List (UInt64 × UInt8)) :=
  match m.lookup req.address with
  | none => none
  | some (virAddr,remainLen) =>
    if req.length ≤ remainLen then req.data.map (Memory.placed virAddr) else none

/-- A request that has been received: the memory afterwards and the response, if one is sent. -/
def processRequest (m : PaVaMap) (mem : Memory) (req : SimpleMemRequest) :
    Option (Memory × Option SimpleMemResponse) :=
  if req.requestType="mem_read" then
    (handleReadRequest m mem req).map (fun response => (mem,some response))
  else if req.requestType="mem_write" then
    (handleWriteRequest m req).map (fun stores => (mem.write stores,none))
  else none

end SimpleMemoryProxyClient

/-- The address lies where the range is mapped. -/
def AddressRange.Maps (r : AddressRange) (va : UInt64) : Prop :=
  (va-r.vaStart).toNat<(r.paEnd-r.paStart).toNat

/-- What a lookup finds comes from a range that contains the address. -/
theorem PaVaMap.lookup_range (m : PaVaMap) (pa va remain : UInt64)
    (h : m.lookup pa=some (va,remain)) :
    ∃ e∈m.ranges.entries,e.2.contains pa=true ∧ va=e.2.vaStart+(pa-e.2.paStart) ∧
      remain=e.2.paEnd-pa := by
  obtain ⟨e,he,hfound⟩ := List.exists_of_findSome?_eq_some h
  rw [SortedMap.upTo,List.mem_reverse,List.mem_filter] at he
  rw [AddressRange.paToVaWithLen] at hfound
  split_ifs at hfound with hc
  obtain ⟨rfl,rfl⟩ := Prod.mk.inj (Option.some.inj hfound)
  exact ⟨e,he.1,hc,rfl,rfl⟩

/-- Bytes from an address of a range on stay inside if there are not more than are left. -/
theorem AddressRange.placed_maps_iff (r : AddressRange) (pa : UInt64) (hc : r.contains pa=true)
    (data : List UInt8) :
    (∀ s∈Memory.placed (r.vaStart+(pa-r.paStart)) data,r.Maps s.1) ↔
      data.length≤(r.paEnd-pa).toNat := by
  rw [contains,Bool.and_eq_true,decide_eq_true_eq,decide_eq_true_eq] at hc
  have hlo := UInt64.le_iff_toNat_le.mp hc.1
  have hhi := UInt64.lt_iff_toNat_lt.mp hc.2
  have hend := r.paEnd.toNat_lt
  have hoff := Word.sub_toNat pa r.paStart hlo
  have hleft := Word.sub_toNat r.paEnd pa hhi.le
  have hsize := Word.sub_toNat r.paEnd r.paStart (by omega)
  have hplaced := Memory.placed_inside_iff r.vaStart (pa-r.paStart).toNat
    (r.paEnd-r.paStart).toNat (by omega) (by omega) data
  rw [UInt64.ofNat_toNat] at hplaced
  refine hplaced.trans ?_
  omega

namespace SimpleMemoryProxyClient

/-- The write request in one view: the range, its data, and the stores. -/
theorem handleWriteRequest_eq (m : PaVaMap) (req : SimpleMemRequest)
    (stores : List (UInt64 × UInt8)) (h : handleWriteRequest m req=some stores) :
    ∃ e∈m.ranges.entries,∃ data,e.2.contains req.address=true ∧ req.data=some data ∧
      req.length≤e.2.paEnd-req.address ∧
      stores=Memory.placed (e.2.vaStart+(req.address-e.2.paStart)) data := by
  rw [handleWriteRequest] at h
  split at h
  · cases h
  next va remain hl =>
    split_ifs at h with hlen
    obtain ⟨data,hdata,rfl⟩ := Option.map_eq_some_iff.mp h
    obtain ⟨e,he,hc,rfl,rfl⟩ := m.lookup_range _ _ _ hl
    exact ⟨e,he,data,hc,hdata,hlen,rfl⟩

/-- A write request that does not panic puts every byte at its place behind the translated address
and changes nothing else. The bytes stay in the range that contains the physical address exactly
if there are not more of them than are left in it. -/
theorem write_inside_iff (m : PaVaMap) (mem : Memory) (req : SimpleMemRequest)
    (stores : List (UInt64 × UInt8)) (h : handleWriteRequest m req=some stores) :
    ∃ e∈m.ranges.entries,∃ data,e.2.contains req.address=true ∧ req.data=some data ∧
      stores=Memory.placed (e.2.vaStart+(req.address-e.2.paStart)) data ∧
      (∀ a,(∀ s∈stores,s.1≠a) → mem.write stores a=mem a) ∧
      ((∀ s∈stores,e.2.Maps s.1) ↔ data.length≤(e.2.paEnd-req.address).toNat) := by
  obtain ⟨e,he,data,hc,hdata,-,rfl⟩ := handleWriteRequest_eq m req stores h
  exact ⟨e,he,data,hc,hdata,rfl,mem.write_of_not_stored _,e.2.placed_maps_iff _ hc data⟩

/-- One page, with a page of other data behind it. -/
def onePage : PaVaMap :=
  ⟨⟨[(0x1000,⟨0x1000,0x2000,0x7000⟩)],by decide⟩,⟨[(0x7000,0x1000)],by decide⟩⟩

/-- A length of one byte with two bytes of data, at the last byte of the page. -/
def overlong : SimpleMemRequest :=
  {requestType := "mem_write",channelId := 0,address := 0x1FFF,length := 1,data := some [1,2]}

theorem write_inside_iff_overlong : ¬∀ e∈onePage.ranges.entries,e.2.contains 0x1FFF=true →
    ∀ s∈Memory.placed 0x7FFF [1,2],e.2.Maps s.1 := by
  obtain ⟨e,he,data,hc,hdata,hstores,-,hiff⟩ := write_inside_iff onePage (fun _ => 0) overlong
    (Memory.placed 0x7FFF [1,2]) (by decide +kernel)
  obtain rfl := Option.some.inj hdata
  obtain rfl := List.mem_singleton.mp he
  intro hall
  exact absurd (hiff.mp (hall _ he hc)) (by decide)

/-- The second byte changes memory behind the page. -/
theorem overlong_writes_behind :
    handleWriteRequest onePage overlong=some [(0x7FFF,1),(0x8000,2)] ∧
      Memory.write (fun _ => 0) [(0x7FFF,1),(0x8000,2)] 0x8000=2 ∧
      ¬∃ e∈onePage.ranges.entries,(0x8000-e.2.vaStart).toNat<(e.2.paEnd-e.2.paStart).toNat := by
  decide +kernel

/-- Reads are bounded by the length that was checked. -/
theorem read_inside (m : PaVaMap) (mem : Memory) (req : SimpleMemRequest)
    (response : SimpleMemResponse) (h : handleReadRequest m mem req=some response) :
    ∃ e∈m.ranges.entries,∃ va,e.2.contains req.address=true ∧
      response.data=some (mem.read va req.length.toNat) ∧
      ∀ i < req.length.toNat,e.2.Maps (va+UInt64.ofNat i) := by
  rw [handleReadRequest] at h
  split at h
  · cases h
  next va remain hl =>
    split_ifs at h with hlen
    obtain rfl := Option.some.inj h
    obtain ⟨e,he,hc,rfl,rfl⟩ := m.lookup_range _ _ _ hl
    refine ⟨e,he,_,hc,rfl,fun i hi => ?_⟩
    have hall := (e.2.placed_maps_iff _ hc (List.replicate req.length.toNat 0)).mpr (by
      rw [List.length_replicate]
      exact UInt64.le_iff_toNat_le.mp hlen)
    refine hall (_,0) ((Memory.mem_placed ..).mpr ⟨i,?_,rfl⟩)
    rw [List.getElem?_replicate,if_pos hi]

/-- The requests of a connection that came with no more data than their length says. -/
def Consistent (req : SimpleMemRequest) : Prop :=
  ∀ data,req.data=some data → data.length ≤ req.length.toNat

/-- A request of a connection; one that panics ends the thread and changes nothing. -/
def next (m : PaVaMap) (mem : Memory) (req : SimpleMemRequest) : Memory :=
  match processRequest m mem req with
  | some (mem,_) => mem
  | none => mem

theorem next_frame (m : PaVaMap) (mem : Memory) (req : SimpleMemRequest) (hreq : Consistent req)
    (a : UInt64) (ha : ∀ e∈m.ranges.entries,¬e.2.Maps a) : next m mem req a=mem a := by
  have hwrite (stores : List (UInt64 × UInt8)) (h : handleWriteRequest m req=some stores) :
      mem.write stores a=mem a := by
    obtain ⟨e,he,data,hc,hdata,hlen,rfl⟩ := handleWriteRequest_eq m req stores h
    refine mem.write_of_not_stored _ a (fun s hs heq => ?_)
    have hfits := (hreq data hdata).trans (UInt64.le_iff_toNat_le.mp hlen)
    have hin := (e.2.placed_maps_iff _ hc data).mpr hfits s hs
    rw [heq] at hin
    exact ha e he hin
  rw [next,processRequest]
  split_ifs
  · cases handleReadRequest m mem req <;> rfl
  · cases h : handleWriteRequest m req with
    | none => rfl
    | some stores => exact hwrite stores h
  · rfl

/-- However many requests come with no more data than they say, memory that is not mapped stays as
it is. -/
theorem run_frame (m : PaVaMap) (mem : Memory) (reqs : List SimpleMemRequest)
    (hreqs : ∀ req∈reqs,Consistent req) (a : UInt64) (ha : ∀ e∈m.ranges.entries,¬e.2.Maps a) :
    Run.run (next m) mem reqs a=mem a :=
  Run.run_inv_of_forall (next m) (fun mem' => mem' a=mem a) Consistent
    (fun mem' req hreq h => (next_frame m mem' req hreq a ha).trans h) mem reqs hreqs rfl

end SimpleMemoryProxyClient
end BlueRdma
