import BlueRdma.Csr.Emulated
import BlueRdma.Protocol.Initialize

namespace BlueRdma

namespace Csr.UdpSocket

/-- The messages that set the base address of a ring. -/
def lowMessage (p : RingSpec × DmaBuf) : CsrAccessRpcMessage :=
  ⟨true,16*p.1.slot+ringOffsetBaseLow,Word.lowHalf p.2.physAddr⟩

def highMessage (p : RingSpec × DmaBuf) : CsrAccessRpcMessage :=
  ⟨true,16*p.1.slot+ringOffsetBaseHigh,Word.highHalf p.2.physAddr⟩

def baseMessages (l : List (RingSpec × DmaBuf)) : List CsrAccessRpcMessage :=
  l.flatMap fun p => [lowMessage p,highMessage p]

theorem baseMessages_concat (l : List (RingSpec × DmaBuf)) (p : RingSpec × DmaBuf) :
    baseMessages (l++[p])=baseMessages l++[lowMessage p,highMessage p] := by
  rw [baseMessages,List.flatMap_append]
  rfl

/-- The first so many sends go through. -/
def Delivers (s : UdpSocket) (n : Nat) : Prop := ∀ k<n,s.sends k=.ok ()

/-- What the messages of some rings leave: two sends each are gone. -/
def Written (s : UdpSocket) (done : List (RingSpec × DmaBuf)) (c : UdpSocket) : Prop :=
  s.Delivers (2*done.length) ∧ c=⟨fun k => s.sends (2*done.length+k),s.recvs,
    s.sent++baseMessages done⟩

/-- A send for the next ring is the first that fails. -/
def Failed (s : UdpSocket) (done : List (RingSpec × DmaBuf)) (fault : CsrFault) (_ : UdpSocket) :
    Prop :=
  ∃ k msg,k/2=done.length ∧ s.Delivers k ∧ s.sends k=.error msg ∧ fault=.io msg

theorem Delivers.succ {s : UdpSocket} {n : Nat} (h : s.Delivers n) (hn : s.sends n=.ok ()) :
    s.Delivers (n+1) := by
  intro k hk
  rcases Nat.lt_succ_iff_lt_or_eq.mp hk with hlt|rfl
  · exact h k hlt
  · exact hn

theorem send_ends (s : UdpSocket) (m : CsrAccessRpcMessage) : (RpcClient.send m).ends s=
    match s.sends 0 with
    | .ok _ => (.ok (),⟨fun k => s.sends (k+1),s.recvs,s.sent++[m]⟩)
    | .error e => (.error (.io e),⟨fun k => s.sends (k+1),s.recvs,s.sent⟩) := by
  rw [Exec.ends,RpcClient.send,ExceptT.run_mk,StateT.run]
  rcases s.sends 0 with e|⟨⟩ <;> rfl

/-- Setting a base address takes two sends, and fails when one of them does. -/
theorem baseWrites (s : UdpSocket) :
    BaseWrites EmulatedDevice.adaptor s.Written s.Failed where
  write := by
    rintro done p c ⟨hdelivers,rfl⟩ hmapped -
    have hbase := p.1.csrBase_of_mapped (hmapped p (by simp))
    rw [writeBaseAddr]
    simp only [hbase]
    change Exec.Leads (RpcClient.send (lowMessage p) >>= fun _ =>
      RpcClient.send (highMessage p)) _ _
    have hlow := send_ends ⟨fun k => s.sends (2*done.length+k),s.recvs,s.sent++baseMessages done⟩
      (lowMessage p)
    have hhigh := send_ends ⟨fun k => s.sends (2*done.length+(k+1)),s.recvs,
      s.sent++baseMessages done++[lowMessage p]⟩ (highMessage p)
    dsimp only at hlow hhigh
    rw [Nat.add_zero] at hlow
    rw [Nat.zero_add] at hhigh
    rcases h0 : s.sends (2*done.length) with e|⟨⟩
    · rw [h0] at hlow
      refine Exec.leads_of_ends (Exec.ends_bind_error hlow) ?_
      exact ⟨2*done.length,e,by omega,hdelivers,h0,rfl⟩
    rw [h0] at hlow
    rcases h1 : s.sends (2*done.length+1) with e|⟨⟩
    · rw [h1] at hhigh
      refine Exec.leads_of_ends ((Exec.ends_bind_ok hlow).trans hhigh) ?_
      exact ⟨2*done.length+1,e,by omega,hdelivers.succ h0,h1,rfl⟩
    · rw [h1] at hhigh
      refine Exec.leads_of_ends ((Exec.ends_bind_ok hlow).trans hhigh) ⟨?_,?_⟩
      · rw [List.length_append,List.length_singleton,Nat.mul_add]
        exact (hdelivers.succ h0).succ h1
      · rw [List.length_append,List.length_singleton,baseMessages_concat,List.append_assoc,
          List.append_assoc]
        congr 1
        funext k
        exact congrArg s.sends (by omega)

end Csr.UdpSocket

namespace EmulatedPageAllocator

/-- The pages, from the last one on. -/
def nth (pageSize ptr pages k : Nat) : DmaBuf :=
  ⟨ptr+(pages-1-k)*pageSize,pageSize,UInt64.ofNat (ptr+(pages-1-k)*pageSize)⟩

/-- So many pages are gone. -/
def Gone (pageSize ptr pages : Nat) (a : EmulatedPageAllocator) (k : Nat) : Prop :=
  a=⟨pageSize,(List.range (pages-k)).map (fun i => ptr+i*pageSize)⟩ ∧ k≤pages

theorem alloc_counts (pageSize ptr pages : Nat) :
    Init.Counts alloc (nth pageSize ptr pages) pages (.outOfMemory none)
      (Gone pageSize ptr pages) where
  le _ _ h := h.2
  more a k ha hk := by
    obtain ⟨rfl,-⟩ := ha
    have hlast : pages-k=(pages-1-k)+1 := by omega
    refine ⟨⟨pageSize,(List.range (pages-(k+1))).map (fun i => ptr+i*pageSize)⟩,?_,rfl,hk⟩
    rw [show pages-(k+1)=pages-1-k by omega,alloc,hlast,List.range_succ]
    simp [nth]
  full a k ha hk := by
    obtain ⟨rfl,-⟩ := ha
    exact ⟨_,by rw [Nat.sub_eq_zero_of_le hk]; rfl⟩

section Pages
variable (pageSize ptr pages : Nat) (hin : ptr+pages*pageSize<2^64)
include hin

/-- A page that is handed out lies inside the memory. -/
theorem nth_inside (k : Nat) (hk : k<pages) : (nth pageSize ptr pages k).physAddr.toNat=
      ptr+(pages-1-k)*pageSize ∧ ptr+(pages-1-k)*pageSize+pageSize≤ptr+pages*pageSize := by
  have hle : (pages-1-k+1)*pageSize≤pages*pageSize := Nat.mul_le_mul_right _ (by omega)
  rw [Nat.succ_mul] at hle
  refine ⟨?_,by omega⟩
  rw [nth,UInt64.toNat_ofNat_of_lt' (by rw [UInt64.size]; omega)]

theorem pages_apart (i j : Nat) (hij : i<j) (hj : j<pages) :
    (nth pageSize ptr pages i).Apart (nth pageSize ptr pages j) := by
  have hle : (pages-1-j+1)*pageSize≤(pages-1-i)*pageSize := Nat.mul_le_mul_right _ (by omega)
  rw [Nat.succ_mul] at hle
  right
  rw [(nth_inside pageSize ptr pages hin i (by omega)).1,
    (nth_inside pageSize ptr pages hin j hj).1]
  change ptr+(pages-1-j)*pageSize+pageSize≤_
  omega

/-- Every byte of a page is found under its address, if every byte of the memory is. -/
theorem nth_lookup (m : PaVaMap) (hm : ∀ pa : UInt64,ptr≤pa.toNat → pa.toNat<ptr+pages*pageSize →
      ∃ rest,m.lookup pa=some (pa,rest)) (k : Nat) (hk : k<pages) (i : Nat) (hi : i<pageSize) :
    ∃ rest,m.lookup ((nth pageSize ptr pages k).physAddr+UInt64.ofNat i)=
      some (UInt64.ofNat ((nth pageSize ptr pages k).ptr+i),rest) := by
  obtain ⟨-,hend⟩ := nth_inside pageSize ptr pages hin k hk
  have hpa : (UInt64.ofNat (ptr+(pages-1-k)*pageSize+i)).toNat=ptr+(pages-1-k)*pageSize+i :=
    UInt64.toNat_ofNat_of_lt' (by rw [UInt64.size]; omega)
  rw [nth,← UInt64.ofNat_add]
  exact hm _ (by rw [hpa]; omega) (by rw [hpa]; omega)

end Pages

/-- The memory of the emulated device is found in the address map, at its own addresses. -/
theorem new_eq_some (d : Bool) (pageSize : PageSize) (ptr : UInt64)
    (hptr : ptr.toNat+defaultAllocatorSize<2^64) :
    ∃ m : PaVaMap,new d pageSize ptr none {}=some (⟨pageSize.bytes.toNat,
      (List.range (defaultAllocatorSize/pageSize.bytes.toNat)).map
        (fun i => ptr.toNat+i*pageSize.bytes.toNat)⟩,m) ∧
    ∀ pa : UInt64,ptr.toNat≤pa.toNat → pa.toNat<ptr.toNat+defaultAllocatorSize →
      ∃ rest,m.lookup pa=some (pa,rest) := by
  let g : Region := ⟨ptr,ptr,UInt64.ofNat defaultAllocatorSize⟩
  have hsize : g.size.toNat=defaultAllocatorSize :=
    UInt64.toNat_ofNat_of_lt' (by decide +kernel)
  have hin : g.pa.toNat+g.size.toNat<2^64 := by rw [hsize]; exact hptr
  have hempty : PaVaMap.Covers {} [] := PaVaMap.covers_empty
  obtain ⟨m,hinsert,hcovers⟩ : ∃ m,PaVaMap.insert d {} g.pa g.va g.size=some m ∧ m.Covers [g] :=
    ⟨_,(hempty.insert_eq_some {} [] d g hin _).mpr ⟨by simp,rfl⟩,
      hempty.insert {} [] g (by rw [hsize]; decide) hin (by simp) (by simp)⟩
  refine ⟨m,?_,fun pa hlow hhigh => ?_⟩
  · change Option.map _ (PaVaMap.insert d {} g.pa g.va g.size)=_
    rw [hinsert,Option.map_some]
    cases pageSize <;> rfl
  · have hfound := hcovers.lookup_eq_some _ _ g List.mem_cons_self pa
      ⟨hlow,by rw [hsize]; exact hhigh⟩
    have hva : g.va+(pa-g.pa)=pa := by
      change ptr+(pa-ptr)=pa
      rw [UInt64.add_comm,UInt64.sub_add_cancel]
    rw [hva] at hfound
    exact ⟨_,hfound⟩

end EmulatedPageAllocator

/-- Bringing up an emulated device, in both page sizes the driver can be built for. With large pages
it gets to the two commands at its end, and succeeds once the simulator has executed these, exactly
if none of the sends that set base addresses fails: the buffers are disjoint, the simulator finds
every byte of them under its physical address, the address of every ring's own buffer has been sent
to the registers of the ring and all workers run. What the simulator makes of the messages is left
open. When a send fails the call reports the error; no worker runs then, unless it was for a ring of
the meta reports: all but the worker of these do in that case. With small pages the call always
panics, as a page is shorter than a ring of descriptors. -/
theorem initializeCtx_emulated (d : Bool) (pageSize : PageSize) (mode : Csr.Mode)
    (netConfig : NetworkConfig) (ptr : UInt64)
    (hptr : ptr.toNat+EmulatedPageAllocator.defaultAllocatorSize<2^64) (socket : Csr.UdpSocket) :
    ∃ a m,EmulatedPageAllocator.new d pageSize ptr none {}=some (a,m) ∧
    (Init.initializeCtx Csr.EmulatedDevice.adaptor EmulatedPageAllocator.alloc mode
      netConfig).Leads ⟨a,socket,[],[]⟩ fun
    | .ok b,t => pageSize=.m2 ∧ socket.Delivers (8+4*mode.numChannel) ∧
        b.all.Pairwise DmaBuf.Apart ∧
        (∀ x∈b.all,descRingBufSize≤x.len ∧ ∀ i<x.len,∃ rest,
          m.lookup (x.physAddr+UInt64.ofNat i)=some (UInt64.ofNat (x.ptr+i),rest)) ∧
        (b.rings mode).map Prod.fst=Csr.builtRings mode ∧
        t.csr.sent=socket.sent++Csr.UdpSocket.baseMessages (b.rings mode) ∧
        t.spawned=Init.workers mode ∧
        t.commands=[.setNetwork netConfig,.setRawPacketRecvBuffer ⟨b.rxBuffer.physAddr⟩]
    | .error f,t => (pageSize=.k4 ∧ f=.panicked "invalid length" ∧ t.spawned=[]) ∨
        (pageSize=.m2 ∧ ∃ k<8+4*mode.numChannel,∃ msg,socket.Delivers k ∧
          socket.sends k=.error msg ∧ f=.csr (.io msg) ∧
          t.spawned=if k<8+2*mode.numChannel then [] else Init.firstWorkers mode) := by
  obtain ⟨m,hnew,hlookup⟩ := EmulatedPageAllocator.new_eq_some d pageSize ptr hptr
  refine ⟨_,m,hnew,?_⟩
  cases pageSize with
  | k4 =>
      have hcounts := EmulatedPageAllocator.alloc_counts 4096 ptr.toNat 32768
      have hshort : 4096<descRingBufSize := by decide
      refine (Init.initializeCtx_short hcounts Csr.EmulatedDevice.adaptor (by decide) hshort mode
        netConfig _ ⟨rfl,by decide⟩).mono ?_
      rintro r t ⟨rfl,hspawned⟩
      exact Or.inl ⟨rfl,rfl,hspawned⟩
  | m2 =>
      have hin : ptr.toNat+64*2097152<2^64 := hptr
      have hcounts := EmulatedPageAllocator.alloc_counts 2097152 ptr.toNat 64
      have hlong : descRingBufSize≤2097152 := by decide
      have hlen : Init.HoldRings (EmulatedPageAllocator.nth 2097152 ptr.toNat 64) := fun _ => hlong
      have hchannels : mode.numChannel≤4 := by cases mode <;> decide
      have hnone : socket.Written [] socket :=
        ⟨fun k hk => absurd hk (Nat.not_lt_zero k),by simp [Csr.UdpSocket.baseMessages]⟩
      refine (Init.initializeCtx_leads socket.baseWrites _ hlen mode netConfig hcounts _
        ⟨rfl,by decide⟩ hnone).mono fun r t hended => ?_
      cases r with
      | error f =>
          obtain ⟨hlimit,-⟩|
            ⟨part,fault,-,hpart,⟨k,msg,hk,hdelivers,hfails,rfl⟩,hf,hspawned⟩ := hended
          · omega
          · refine Or.inr ⟨rfl,k,by omega,msg,hdelivers,hfails,hf,hspawned.trans ?_⟩
            rw [List.nil_append,Init.startedBehind]
            exact if_congr (by omega) rfl rfl
      | ok b =>
          obtain ⟨hlimit,hb,⟨hdelivers,hsocket⟩,hspawned,hcommands⟩ := hended
          rw [hb,Init.length_rings] at hdelivers
          refine ⟨rfl,?_,?_,?_,?_,by rw [hsocket],hspawned,hcommands⟩
          · rwa [show 2*(4+2*mode.numChannel)=8+4*mode.numChannel by omega] at hdelivers
          · rw [hb]
            exact Init.handedOut_apart _ mode _ hlimit
              (EmulatedPageAllocator.pages_apart 2097152 ptr.toNat 64 hin)
          · intro x hx
            rw [hb,Init.all_handedOut,List.mem_map] at hx
            obtain ⟨k,hk,rfl⟩ := hx
            exact ⟨hlong,EmulatedPageAllocator.nth_lookup 2097152 ptr.toNat 64 hin m hlookup k
              ((List.mem_range.mp hk).trans_le hlimit)⟩
          · rw [hb,Init.rings_fst]

/-- A build with large pages whose eleventh send fails, at a usual address of a mapping: it is the
first one for the ring of the meta reports, so the other workers are left running. -/
theorem initializeCtx_emulated_send_fails :
    ∃ a m,EmulatedPageAllocator.new true .m2 0x7F0000000000 none {}=some (a,m) ∧
    (Init.initializeCtx Csr.EmulatedDevice.adaptor EmulatedPageAllocator.alloc .mode100G
      ⟨0,0,none⟩).Leads ⟨a,⟨fun k => if k=10 then .error "Connection refused" else .ok (),
        fun _ => .error "",[]⟩,[],[]⟩ fun r t =>
      r=.error (.csr (.io "Connection refused")) ∧ t.spawned=Init.firstWorkers .mode100G := by
  obtain ⟨a,m,hnew,hleads⟩ := initializeCtx_emulated true .m2 .mode100G ⟨0,0,none⟩ 0x7F0000000000
    (by decide)
    ⟨fun k => if k=10 then .error "Connection refused" else .ok (),fun _ => .error "",[]⟩
  refine ⟨a,m,hnew,hleads.mono fun r t h => ?_⟩
  cases r with
  | ok b =>
      have hten := h.2.1 10 (by decide)
      cases hten
  | error f =>
      obtain ⟨h,-⟩|⟨-,k,-,msg,-,hfails,hf,hspawned⟩ := h
      · cases h
      · dsimp only at hfails
        split_ifs at hfails with hk
        · subst hk
          obtain rfl := Except.error.inj hfails
          exact ⟨congrArg _ hf,hspawned.trans (if_neg (by decide))⟩

end BlueRdma
