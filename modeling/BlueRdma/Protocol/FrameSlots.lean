import BlueRdma.Protocol.FrameRing

namespace BlueRdma
namespace FrameSystem

/-- What the device transmits for the descriptor with number `k`: it reads the descriptor in the
ring and then the memory the descriptor points to. -/
def fetch (s : FrameSystem) (k : Nat) : Option (List UInt8) :=
  let desc : SimpleNicTxQueueDesc := DescDeserialize.deserialize (s.ring.slots (k%ringBufLen))
  s.queue.buf.get (desc.addr-s.queue.bufBasePhysAddr).toNat desc.len.toNat

/-- Every descriptor that was pushed and not consumed still stands for its frame. -/
def Intact (s : FrameSystem) : Prop :=
  ∀ k frame,s.frames[k]?=some frame → s.consumed ≤ k → s.fetch k=some frame

/-- The frame of a call agrees with every waiting frame in the slot it is copied to, as far as both
reach. -/
def Spares (s : FrameSystem) : FrameStep → Prop
  | .send frame => ∀ k old,s.frames[k]?=some old → s.consumed ≤ k → k%1024=s.frames.length%1024 →
    ∀ (j : Nat) (a b : UInt8),old[j]?=some a → frame[j]?=some b → a=b
  | _ => True

theorem fetch_eq (s : FrameSystem) (h : Good s) (k : Nat) (frame : List UInt8)
    (hk : s.frames[k]?=some frame) (hc : s.consumed ≤ k) :
    s.fetch k=s.queue.buf.get (slotOffset k) frame.length := by
  obtain ⟨low,told,hsync⟩ := h.synced
  have hdesc : (descriptors s.queue.bufBasePhysAddr s.frames)[k]?=
      some (DescSerialize.serialize (descOf s.queue.bufBasePhysAddr k frame)) := by
    rw [descriptors,List.getElem?_mapIdx,hk]
    rfl
  have hslot : s.ring.slots (k%ringBufLen)=
      DescSerialize.serialize (descOf s.queue.bufBasePhysAddr k frame) := hsync.slot_eq k _ hdesc hc
  have hframe : frame.length<2^32 :=
    lt_of_le_of_lt (h.short frame (List.mem_of_getElem? hk)) (by decide)
  have hoffset : slotOffset k<2^64 := by
    rw [slotOffset]
    omega
  have haddr : ((descOf s.queue.bufBasePhysAddr k frame).addr-s.queue.bufBasePhysAddr).toNat=
      slotOffset k := by
    change (s.queue.bufBasePhysAddr+UInt64.ofNat (slotOffset k)-s.queue.bufBasePhysAddr).toNat=_
    rw [UInt64.add_comm,UInt64.add_sub_cancel,UInt64.toNat_ofNat_of_lt' hoffset]
  have hlen : (descOf s.queue.bufBasePhysAddr k frame).len.toNat=frame.length :=
    UInt32.toNat_ofNat_of_lt' hframe
  rw [fetch,hslot,SimpleNicTxQueueDesc.deserialize_serialize,haddr,hlen]

theorem fetch_iff (s : FrameSystem) (h : Good s) (k : Nat) (frame : List UInt8)
    (hk : s.frames[k]?=some frame) (hc : s.consumed ≤ k) :
    s.fetch k=some frame ↔ s.queue.buf.Holds (slotOffset k) frame := by
  have hshort := h.short frame (List.mem_of_getElem? hk)
  rw [fetch_eq s h k frame hk hc]
  refine s.queue.buf.get_eq_some (slotOffset k) frame ?_
  rw [h.bufLen]
  exact slotOffset_fits k frame hshort

/-- Two slots are the same or apart. -/
theorem slotOffset_apart (k n : Nat) (hne : k%1024≠n%1024) (old frame : List UInt8)
    (hold : old.length ≤ frameSlotSize) (hframe : frame.length ≤ frameSlotSize) :
    slotOffset n+frame.length ≤ slotOffset k ∨ slotOffset k+old.length ≤ slotOffset n := by
  change old.length ≤ 128 at hold
  change frame.length ≤ 128 at hframe
  rw [slotOffset,slotOffset]
  omega

/-- Copying a frame leaves the waiting ones alone just if it spares them. -/
theorem intact_send_iff (s : FrameSystem) (frame : List UInt8) (hl : Enabled s (.send frame))
    (h : Good s) (hin : Intact s) : Intact (s.step (.send frame)) ↔ Spares s (.send frame) := by
  have hgood := step_good s (.send frame) hl h
  obtain ⟨buf,hcopy,hstep⟩ := h.send s frame hl.1 hl.2
  rw [hstep] at hgood ⊢
  refine forall_congr' fun k => forall_congr' fun old => imp_congr_right fun hk =>
    imp_congr_right fun hc => ?_
  have hheld := (fetch_iff s h k old hk hc).mp (hin k old hk hc)
  rw [fetch_iff _ hgood k old hk hc]
  dsimp only
  by_cases hsame : k%1024=s.frames.length%1024
  · have hslot : slotOffset s.frames.length=slotOffset k := by rw [slotOffset,slotOffset,hsame]
    rw [hslot] at hcopy
    rw [MmapMut.holds_copyFrom_over _ _ _ _ hcopy old hheld]
    exact ⟨fun hagree _ => hagree,fun hagree => hagree hsame⟩
  · have hapart := slotOffset_apart k s.frames.length hsame old frame
      (h.short old (List.mem_of_getElem? hk)) hl.2
    rw [MmapMut.holds_copyFrom_apart _ _ _ _ hcopy (slotOffset k) old hapart]
    exact ⟨fun _ hsame' => absurd hsame' hsame,fun _ => hheld⟩

/-- Without a copy the frames that were waiting are still there. -/
theorem Intact.of_buf (s s' : FrameSystem) (h : Good s) (hin : Intact s) (h' : Good s')
    (hbuf : s'.queue.buf=s.queue.buf) (hc : s.consumed ≤ s'.consumed)
    (hframes : ∀ (k : Nat) frame,s'.frames[k]?=some frame →
      s.frames[k]?=some frame ∨ s.queue.buf.Holds (slotOffset k) frame) : Intact s' := by
  intro k frame hk hck
  rw [fetch_iff s' h' k frame hk hck,hbuf]
  rcases hframes k frame hk with hold|hnew
  · exact (fetch_iff s h k frame hold (hc.trans hck)).mp (hin k frame hold (hc.trans hck))
  · exact hnew

/-- No step but a call copies anything. -/
theorem intact_next (s : FrameSystem) (ok : Bool) (h : Good s) (hin : Intact s) :
    Intact (s.step (.next ok)) := by
  have hgood := step_good s (.next ok) trivial h
  obtain ⟨phase,hphase⟩ : ∃ phase,s.phase=phase := ⟨_,rfl⟩
  cases phase with
  | idle =>
      rw [step_idle s ok hphase]
      exact hin
  | pushing desc frame =>
      rcases Nat.lt_or_eq_of_le (len_le s h) with hroom|hfull
      · rw [step_room s desc frame ok hphase hroom] at hgood ⊢
        refine hin.of_buf s _ h hgood rfl le_rfl ?_
        intro k frame' hk
        rcases Nat.lt_trichotomy k s.frames.length with hlt|rfl|hgt
        · exact Or.inl (by rwa [List.getElem?_append_left hlt] at hk)
        · rw [List.getElem?_concat_length] at hk
          obtain rfl := Option.some.inj hk
          exact Or.inr (h.pushing desc frame hphase).2.2
        · rw [List.getElem?_eq_none (by rw [List.length_append,List.length_singleton]; omega)] at hk
          cases hk
      · rw [step_full s desc frame ok hphase hfull]
        exact hin
  | pushed =>
      rw [step_pushed s ok hphase] at hgood ⊢
      exact hin.of_buf s _ h hgood (by cases ok <;> rfl) le_rfl (fun k frame hk => Or.inl hk)
  | told =>
      rw [step_told s ok hphase] at hgood ⊢
      exact hin.of_buf s _ h hgood (by cases ok <;> rfl) le_rfl (fun k frame hk => Or.inl hk)

theorem intact_step_iff (s : FrameSystem) (l : FrameStep) (hl : Enabled s l)
    (h : Good s ∧ Intact s) : Intact (s.step l) ↔ Spares s l := by
  cases l with
  | send frame => exact intact_send_iff s frame hl h.1 h.2
  | next ok => exact ⟨fun _ => trivial,fun _ => intact_next s ok h.1 h.2⟩
  | consume n =>
      refine ⟨fun _ => trivial,fun _ => ?_⟩
      exact h.2.of_buf s _ h.1 (step_good s (.consume n) hl h.1) rfl (Nat.le_add_right ..)
        (fun k frame hk => Or.inl hk)

/-- Fewer descriptors wait than there are slots when a call begins. -/
def Few (s : FrameSystem) : FrameStep → Prop
  | .send _ => s.frames.length < s.consumed+1024
  | _ => True

instance (s : FrameSystem) (l : FrameStep) : Decidable (Few s l) :=
  match l with
  | .send _ => inferInstanceAs (Decidable (_<_))
  | .next _ => inferInstanceAs (Decidable True)
  | .consume _ => inferInstanceAs (Decidable True)

theorem spares_of_few (s : FrameSystem) (l : FrameStep) (h : Few s l) : Spares s l := by
  cases l with
  | send frame =>
      intro k old hk hc hsame
      have hlt := (List.getElem?_eq_some_iff.mp hk).1
      change s.frames.length < s.consumed+1024 at h
      omega
  | next ok => trivial
  | consume n => trivial

/-- In a run with frames that fit a slot and a device that consumes descriptors as it likes, every
waiting descriptor stands for its frame just as long as no frame is copied over a different one
that waits in the same slot. With fewer than 1024 descriptors waiting there is none. -/
theorem frames_intact_iff (base : UInt64) (bytes : Nat → UInt8) (ls : List FrameStep)
    (hls : Run.Along step Enabled (init base bytes) ls) :
    (Run.Along step (fun s l => Intact (s.step l)) (init base bytes) ls ↔
      Run.Along step Spares (init base bytes) ls) ∧
    (Run.Along step Few (init base bytes) ls →
      Run.Along step (fun s l => Intact (s.step l)) (init base bytes) ls) := by
  have hiff : Run.Along step (fun s l => Intact (s.step l)) (init base bytes) ls ↔
      Run.Along step Spares (init base bytes) ls := by
    refine Run.along_iff_of_allowed step Enabled _ Spares (fun s => Good s ∧ Intact s)
      intact_step_iff ?_ _ ls hls ⟨init_good base bytes,fun k frame hk => by cases hk⟩
    intro s l hl hspares h
    exact ⟨step_good s l hl h.1,(intact_step_iff s l hl h).mpr hspares⟩
  exact ⟨hiff,fun hfew => hiff.mpr (Run.along_mono step Few Spares spares_of_few _ ls hfew)⟩

/-- Four frames, of which the device consumes one while two wait. -/
def fourFrames : List FrameStep :=
  sendSteps [1]++(sendSteps [2,3]++(.consume 1::(sendSteps [4,5,6]++sendSteps [7])))

theorem frames_intact_iff_four :
    Run.Along step Enabled (init 0 fun _ => 0) fourFrames ∧
      (Run.run step (init 0 fun _ => 0) fourFrames).frames=[[1],[2,3],[4,5,6],[7]] ∧
      (Run.run step (init 0 fun _ => 0) fourFrames).consumed=1 ∧
      Run.Along step (fun s l => Intact (s.step l)) (init 0 fun _ => 0) fourFrames := by
  have hpublished : 1≤published (Run.run step (init 0 fun _ => 0)
      (sendSteps [1]++sendSteps [2,3])) := by decide +kernel
  have hls : Run.Along step Enabled (init 0 fun _ => 0) fourFrames :=
    ⟨⟨rfl,by decide⟩,trivial,trivial,trivial,⟨rfl,by decide⟩,trivial,trivial,trivial,hpublished,
      ⟨rfl,by decide⟩,trivial,trivial,trivial,⟨rfl,by decide⟩,trivial,trivial,trivial,trivial⟩
  exact ⟨hls,rfl,rfl,(frames_intact_iff 0 (fun _ => 0) fourFrames hls).2 (by decide +kernel)⟩

/-- After enough frames the device has not looked at, another one is copied over a waiting one. -/
theorem run_sends_over (old new : List UInt8) (hold : old.length ≤ frameSlotSize)
    (hnew : new.length=old.length) (n k : Nat) (hn : n ≤ ringBufLen) (hk : k<n)
    (hsame : k%1024=n%1024) :
    let ls := sends old n++[.send new]
    let s := Run.run step (init 0 fun _ => 0) ls
    Run.Along step Enabled (init 0 fun _ => 0) ls ∧
      s.frames[k]?=some old ∧ s.consumed=0 ∧ s.fetch k=some new := by
  intro ls s
  have hsize : new.length ≤ frameSlotSize := hnew.trans_le hold
  obtain ⟨hls,h⟩ := run_sends 0 (fun _ => 0) old hold n hn
  have hl : Enabled (Run.run step (init 0 fun _ => 0) (sends old n)) (.send new) := ⟨h.idle,hsize⟩
  have hgood := step_good _ _ hl h.good
  obtain ⟨buf,hcopy,hstep⟩ := h.good.send _ new h.idle hsize
  have hframe : (Run.run step (init 0 fun _ => 0) (sends old n)).frames[k]?=some old := by
    rw [h.frames,List.getElem?_replicate,if_pos hk]
  have hend : s=step (Run.run step (init 0 fun _ => 0) (sends old n)) (.send new) :=
    Run.run_concat step _ _ _
  rw [hstep] at hgood hend
  refine ⟨(Run.along_append ..).mpr ⟨hls,hl,trivial⟩,?_⟩
  rw [hend]
  refine ⟨hframe,h.consumed,?_⟩
  have hslot : slotOffset n=slotOffset k := by rw [slotOffset,slotOffset,hsame]
  have hheld := MmapMut.holds_copyFrom_self _ _ _ _ hcopy
  have hlen := hgood.bufLen
  rw [h.frames,List.length_replicate,hslot] at hheld
  rw [fetch_eq _ hgood k old hframe (by rw [h.consumed]; exact Nat.zero_le k),← hnew]
  refine (buf.get_eq_some (slotOffset k) new ?_).mpr hheld
  exact (slotOffset_fits k new hsize).trans_eq hlen.symm

theorem waiting_frame_overwritten :
    let ls := sends [1] 1024++[.send [2]]
    let s := Run.run step (init 0 fun _ => 0) ls
    Run.Along step Enabled (init 0 fun _ => 0) ls ∧
      s.frames[0]?=some [1] ∧ s.consumed=0 ∧ s.fetch 0=some [2] :=
  run_sends_over [1] [2] (by decide) rfl 1024 0 (by decide) (by decide) (by decide)

end FrameSystem
end BlueRdma
