import BlueRdma.Framework.Run
import BlueRdma.Verbs.Mr

namespace BlueRdma
namespace MrRegions

/-- A call of the application, with what the operating system answers and the random part of the
key it may get. -/
inductive Label
  | regMr (addr length : UInt64) (pdHandle : UInt32) (access : UInt8) (umem : Umem) (key : UInt8)
  | deregMr (mrKey : UInt32)

/-- The device context with the regions the translation table holds and those of them the
application was given a key for. -/
structure State where
  ctx : MrCtx := {}
  live : List (UInt32 × PgtEntry) := []
  registered : List (UInt32 × PgtEntry) := []

/-- The region the table grants during a call, if any. -/
def granted (b : BuildConfig) (s : MrCtx) (addr length : UInt64) (umem : Umem) (key : UInt8) :
    List (UInt32 × PgtEntry) :=
  match umem.pinPages,(s.attempt b addr length key).result with
  | .ok (),some (.ok r) => [r]
  | _,_ => []

def step (b : BuildConfig) (s : State) : Label → State
  | .regMr addr length pdHandle access umem key =>
    let c := s.ctx.regMr b addr length pdHandle access umem key
    let new := granted b s.ctx addr length umem key
    ⟨c.next,s.live++new,match c.result with
      | some (.ok _) => s.registered++new
      | _ => s.registered⟩
  | .deregMr mrKey =>
    let r := s.ctx.deregMr mrKey
    match r.2 with
    | .ok () => ⟨r.1,s.live.filter (fun x => x.1≠mrKey),s.registered.filter (fun x => x.1≠mrKey)⟩
    | .error _ => ⟨r.1,s.live,s.registered⟩

def run (b : BuildConfig) (ls : List Label) : State := Run.run (step b) {} ls

/-- The page-table indices a device entry gives access to. -/
def covers (p : PageSize) (x : MttUpdate) (i : Nat) : Prop :=
  x.basePgtOffset.toNat ≤ i ∧
    i<x.basePgtOffset.toNat+getNumPage p x.mrBaseVa x.mrLength.toUInt64

/-- The device still has the entry although its region is not registered any more. -/
def Stale (s : State) (x : MttUpdate) : Prop :=
  x∈deviceMrTable s.ctx.cmds ∧ ∀ r∈s.registered,r.1≠x.mrKey

/-- No entry of the device reaches into a region it was not written for. -/
def Sound (b : BuildConfig) (s : State) : Prop :=
  ∀ x,Stale s x → ∀ i,covers b.pageSize x i → ∀ r∈s.registered,¬r.2.Covers i

/-- When a region is registered, no page-table entry that a stale device entry covers is free,
except for the device entry of the key index that is handed out next. -/
def Fresh (b : BuildConfig) (s : State) : Label → Prop
  | .regMr _ _ _ _ _ _ => ∀ x,Stale s x →
    s.ctx.mtt.alloc.mr.freeList.head?≠some (Mtt.keyIndex x.mrKey) →
    ∀ i,covers b.pageSize x i → s.ctx.mtt.alloc.pgt.freeList.getLsbD i=true
  | .deregMr _ => True

structure Inv (b : BuildConfig) (s : State) : Prop where
  tracks : s.ctx.mtt.Tracks b.debugAssertions s.live
  sub : s.registered.Sublist s.live
  ranges : ∀ x∈deviceMrTable s.ctx.cmds,∀ r∈s.registered,x.mrKey=r.1 →
    ∀ i,covers b.pageSize x i ↔ r.2.Covers i

theorem granted_ok (b : BuildConfig) (s : MrCtx) (addr length : UInt64) (umem : Umem)
    (key : UInt8) (r : UInt32 × PgtEntry) (hpin : umem.pinPages=.ok ())
    (hres : (s.attempt b addr length key).result=some (.ok r)) :
    granted b s addr length umem key=[r] := by
  rw [granted,hpin,hres]

theorem granted_refused (b : BuildConfig) (s : MrCtx) (addr length : UInt64) (umem : Umem)
    (key : UInt8) (h : (∃ e,umem.pinPages=.error e) ∨
      (s.attempt b addr length key).result=some (.error .outOfMemory)) :
    granted b s addr length umem key=[] := by
  rcases h with ⟨e,he⟩|hres
  · rw [granted,he]
  · rw [granted,hres]
    rcases umem.pinPages with e|⟨⟩ <;> rfl

/-- The table follows its own regions whatever becomes of the call. -/
theorem attempt_tracks (b : BuildConfig) (s : MrCtx) (live : List (UInt32 × PgtEntry))
    (h : s.mtt.Tracks b.debugAssertions live) (addr length : UInt64) (key : UInt8) :
    (s.attempt b addr length key).result=some (.error .outOfMemory) ∧
      Alloc.Refuses s.mtt.alloc (s.attempt b addr length key).next.alloc ∧
      (s.attempt b addr length key).next.mrkeyMap=s.mtt.mrkeyMap ∧
      (s.attempt b addr length key).next.Tracks b.debugAssertions live ∨
    ∃ idx mrKey entry,(s.attempt b addr length key).result=some (.ok (mrKey,entry)) ∧
      Alloc.Takes s.mtt.alloc (s.attempt b addr length key).next.alloc
        (getNumPage b.pageSize addr length) key idx mrKey entry ∧
      (s.attempt b addr length key).next.Tracks b.debugAssertions (live++[(mrKey,entry)]) :=
  Mtt.register_cases b.debugAssertions s.mtt live h (getNumPage b.pageSize addr length) key

/-- The entry the device learns covers the range the table granted. -/
theorem covers_new (p : PageSize) (addr length : UInt64) (lengthU32 mrKey pdHandle : UInt32)
    (access : UInt8) (entry : PgtEntry) (hlen : Word.toU32? length=some lengthU32)
    (hcount : entry.count.toNat=getNumPage p addr length) (i : Nat) :
    covers p ⟨addr,lengthU32,mrKey,pdHandle,access,entry.index⟩ i ↔ entry.Covers i := by
  rw [covers,PgtEntry.Covers,hcount,Word.toU32?_toUInt64 length lengthU32 hlen]

theorem device_regMr (b : BuildConfig) (s : MrCtx) (addr length : UInt64) (pdHandle : UInt32)
    (access : UInt8) (umem : Umem) (key : UInt8) (c : Call MrCtx RdmaError UInt32)
    (h : MrCtx.RegMr b s addr length pdHandle access umem key c) :
    (∀ k,c.result≠some (.ok k)) ∧ c.next.cmds=s.cmds ∨
    ∃ mrKey entry lengthU32,c.result=some (.ok mrKey) ∧ umem.pinPages=.ok () ∧
      (s.attempt b addr length key).result=some (.ok (mrKey,entry)) ∧
      Word.toU32? length=some lengthU32 ∧
      deviceMrTable c.next.cmds=(deviceMrTable s.cmds).filter
        (fun y => Mtt.keyIndex y.mrKey≠Mtt.keyIndex mrKey)++
          [⟨addr,lengthU32,mrKey,pdHandle,access,entry.index⟩] := by
  cases h with
  | notPinned e hpin => exact Or.inl ⟨by simp,rfl⟩
  | refused hpin hres => exact Or.inl ⟨by simp,rfl⟩
  | dropped hpin mrKey entry hres e => exact Or.inl ⟨by simp,rfl⟩
  | done hpin mrKey entry hres lengthU32 hlen phys =>
      refine Or.inr ⟨mrKey,entry,lengthU32,rfl,hpin,hres,hlen,?_⟩
      rw [deviceMrTable_append _ _ (pgtUpdates_kind _ _ _),deviceMrTable_update]

theorem regMr_mtt (b : BuildConfig) (s : MrCtx) (addr length : UInt64) (pdHandle : UInt32)
    (access : UInt8) (umem : Umem) (key : UInt8) (c : Call MrCtx RdmaError UInt32)
    (h : MrCtx.RegMr b s addr length pdHandle access umem key c) :
    (∃ e,umem.pinPages=.error e) ∧ c.next.mtt=s.mtt ∨
      umem.pinPages=.ok () ∧ c.next.mtt=(s.attempt b addr length key).next := by
  cases h with
  | notPinned e hpin => exact Or.inl ⟨⟨e,hpin⟩,rfl⟩
  | refused hpin hres => exact Or.inr ⟨hpin,rfl⟩
  | dropped hpin mrKey entry hres e => exact Or.inr ⟨hpin,rfl⟩
  | done hpin mrKey entry hres lengthU32 hlen phys => exact Or.inr ⟨hpin,rfl⟩

theorem step_tracks (b : BuildConfig) (s : State) (l : Label)
    (h : s.ctx.mtt.Tracks b.debugAssertions s.live) :
    (step b s l).ctx.mtt.Tracks b.debugAssertions (step b s l).live := by
  cases l with
  | regMr addr length pdHandle access umem key =>
      have hspec := MrCtx.regMr_spec b s.ctx addr length pdHandle access umem key s.live h
      rw [step]
      dsimp only
      rcases regMr_mtt b s.ctx addr length pdHandle access umem key _ hspec with
        ⟨hpin,hmtt⟩|⟨hpin,hmtt⟩
      · rw [hmtt,granted_refused b s.ctx addr length umem key (Or.inl hpin),List.append_nil]
        exact h
      rw [hmtt]
      rcases attempt_tracks b s.ctx s.live h addr length key with
        ⟨hres,-,-,hnext⟩|⟨idx,mrKey,entry,hres,-,hnext⟩
      · rw [granted_refused b s.ctx addr length umem key (Or.inr hres),List.append_nil]
        exact hnext
      · rw [granted_ok b s.ctx addr length umem key _ hpin hres]
        exact hnext
  | deregMr mrKey =>
      rcases Mtt.deregister_cases b.debugAssertions s.ctx.mtt s.live h mrKey with
        ⟨-,heq⟩|⟨entry,-,-,heq,hnext⟩
      · rw [step]
        simp only [MrCtx.deregMr,heq]
        exact h
      · rw [heq] at hnext
        rw [step]
        simp only [MrCtx.deregMr,heq]
        exact hnext

/-- A call that fails leaves the device and the registered regions alone; one that succeeds adds
a region whose key index was in front of the free list and whose pages were free. -/
theorem regMr_step (b : BuildConfig) (s : State) (h : s.ctx.mtt.Tracks b.debugAssertions s.live)
    (addr length : UInt64) (pdHandle : UInt32) (access : UInt8) (umem : Umem) (key : UInt8) :
    (step b s (.regMr addr length pdHandle access umem key)).registered=s.registered ∧
      (step b s (.regMr addr length pdHandle access umem key)).ctx.cmds=s.ctx.cmds ∨
    ∃ mrKey entry x,
      (step b s (.regMr addr length pdHandle access umem key)).registered=
        s.registered++[(mrKey,entry)] ∧
      (step b s (.regMr addr length pdHandle access umem key)).live=s.live++[(mrKey,entry)] ∧
      deviceMrTable (step b s (.regMr addr length pdHandle access umem key)).ctx.cmds=
        (deviceMrTable s.ctx.cmds).filter
          (fun y => Mtt.keyIndex y.mrKey≠Mtt.keyIndex mrKey)++[x] ∧
      x.mrKey=mrKey ∧ (∀ i,covers b.pageSize x i ↔ entry.Covers i) ∧
      s.ctx.mtt.alloc.mr.freeList.head?=some (Mtt.keyIndex mrKey) ∧
      ∀ i,entry.Covers i → s.ctx.mtt.alloc.pgt.freeList.getLsbD i=false := by
  have hspec := MrCtx.regMr_spec b s.ctx addr length pdHandle access umem key s.live h
  rw [step]
  dsimp only
  rcases device_regMr b s.ctx addr length pdHandle access umem key _ hspec with
    ⟨hres,hcmds⟩|⟨mrKey,entry,lengthU32,hres,hpin,hattempt,hlen,htable⟩
  · left
    refine ⟨?_,hcmds⟩
    split
    · next k hk => exact absurd hk (hres k)
    · rfl
  right
  rcases attempt_tracks b s.ctx s.live h addr length key with
    ⟨hno,-⟩|⟨idx,mrKey',entry',hsame,ht,-⟩
  · rw [hattempt] at hno
    cases hno
  rw [hattempt] at hsame
  obtain ⟨rfl,rfl⟩ : mrKey=mrKey' ∧ entry=entry' := by simpa using hsame
  have hidx : Mtt.keyIndex mrKey=idx := by
    rw [ht.key]
    exact Mtt.keyIndex_key idx key (h.freeBound idx (by simp [ht.front]))
  have hnew := granted_ok b s.ctx addr length umem key _ hpin hattempt
  refine ⟨mrKey,entry,_,by rw [hres,hnew],by rw [hnew],htable,rfl,?_,?_,ht.free⟩
  · exact covers_new b.pageSize addr length lengthU32 mrKey pdHandle access entry hlen ht.count
  · rw [ht.front,hidx,List.head?_cons]

theorem step_inv (b : BuildConfig) (s : State) (l : Label) (h : Inv b s) : Inv b (step b s l) := by
  have htracks := step_tracks b s l h.tracks
  cases l with
  | regMr addr length pdHandle access umem key =>
      rcases regMr_step b s h.tracks addr length pdHandle access umem key with
        ⟨hreg,hcmds⟩|⟨mrKey,entry,x,hreg,hlive,htable,hx,hcovers,hhead,-⟩
      · refine ⟨htracks,?_,?_⟩
        · rw [hreg]
          exact h.sub.trans (List.sublist_append_left ..)
        · rw [hreg,hcmds]
          exact h.ranges
      have hfront : Mtt.keyIndex mrKey∈s.ctx.mtt.alloc.mr.freeList := List.mem_of_head? hhead
      refine ⟨htracks,?_,?_⟩
      · rw [hreg,hlive]
        exact h.sub.append (List.Sublist.refl _)
      · rw [hreg,htable]
        intro y hy r hr hkey
        rcases List.mem_append.mp hy with hy|hy <;> rcases List.mem_append.mp hr with hr|hr
        · exact h.ranges y (List.mem_filter.mp hy).1 r hr hkey
        · obtain rfl := List.mem_singleton.mp hr
          have hne := (List.mem_filter.mp hy).2
          simp [hkey] at hne
        · obtain rfl := List.mem_singleton.mp hy
          have hout := (h.tracks.taken r (h.sub.subset hr)).1
          rw [← hkey,hx] at hout
          exact absurd hfront hout
        · obtain rfl := List.mem_singleton.mp hy
          obtain rfl := List.mem_singleton.mp hr
          exact hcovers
  | deregMr mrKey =>
      rw [step] at htracks ⊢
      split at htracks
      · exact ⟨htracks,h.sub.filter _,fun x hx r hr => h.ranges x hx r (List.mem_filter.mp hr).1⟩
      · exact ⟨htracks,h.sub,h.ranges⟩

theorem init_inv (b : BuildConfig) : Inv b {} :=
  ⟨Mtt.new_tracks _,List.Sublist.refl _,by simp⟩

theorem step_sound (b : BuildConfig) (s : State) (l : Label) (hl : Fresh b s l)
    (h : Inv b s ∧ Sound b s) : Sound b (step b s l) := by
  obtain ⟨hinv,hsound⟩ := h
  cases l with
  | regMr addr length pdHandle access umem key =>
      rcases regMr_step b s hinv.tracks addr length pdHandle access umem key with
        ⟨hreg,hcmds⟩|⟨mrKey,entry,x,hreg,-,htable,hx,-,hhead,hfree⟩
      · intro y hy
        rw [hreg]
        apply hsound y
        rwa [Stale,hreg,hcmds] at hy
      rintro y ⟨hy,hstale⟩ i hi r hr
      rw [htable] at hy
      rw [hreg] at hr hstale
      rcases List.mem_append.mp hy with hy|hy
      · obtain ⟨hy,hne⟩ := List.mem_filter.mp hy
        have hold : Stale s y := ⟨hy,fun r hr => hstale r (List.mem_append_left _ hr)⟩
        rcases List.mem_append.mp hr with hr|hr
        · exact hsound y hold i hi r hr
        · obtain rfl := List.mem_singleton.mp hr
          -- the new region was free, what the stale entry covers was not
          intro hin
          have hother : s.ctx.mtt.alloc.mr.freeList.head?≠some (Mtt.keyIndex y.mrKey) := by
            intro heq
            rw [hhead] at heq
            simp [Option.some.inj heq] at hne
          have hused := hl y hold hother i hi
          rw [hfree i hin] at hused
          cases hused
      · obtain rfl := List.mem_singleton.mp hy
        exact absurd hx.symm (hstale (mrKey,entry) (by simp))
  | deregMr mrKey =>
      rw [step]
      split
      · rintro y ⟨hy,hstale⟩ i hi r hr
        obtain ⟨hr,hkey⟩ := List.mem_filter.mp hr
        by_cases hown : ∃ q∈s.registered,q.1=y.mrKey
        · -- the entry belongs to the region that is going
          obtain ⟨q,hq,hqy⟩ := hown
          have hgone : q.1=mrKey := by
            by_contra hne
            exact hstale q (List.mem_filter.mpr ⟨hq,by simpa using hne⟩) hqy
          have hne : q≠r := by
            rintro rfl
            simp [hgone] at hkey
          have : Std.Symm (fun r s : UInt32 × PgtEntry => ∀ i,r.2.Covers i → ¬s.2.Covers i) :=
            ⟨fun _ _ hxy i hy hx => hxy i hx hy⟩
          exact hinv.tracks.disjoint.forall (hinv.sub.subset hq) (hinv.sub.subset hr) hne i
            ((hinv.ranges y hy q hq hqy.symm i).mp hi)
        · exact hsound y ⟨hy,fun q hq hqy => hown ⟨q,hq,hqy⟩⟩ i hi r hr
      · exact hsound

/-- Keys, page table and key map are as before. -/
def Restored (s s' : MrCtx) : Prop :=
  (∀ i,i∈s'.mtt.alloc.mr.freeList ↔ i∈s.mtt.alloc.mr.freeList) ∧
    s'.mtt.alloc.pgt=s.mtt.alloc.pgt ∧ s'.mtt.mrkeyMap=s.mtt.mrkeyMap

/-- The length is not zero and fits in a word of the device, the page table has a free row for the
region, and all its pages resolve. -/
structure Registrable (b : BuildConfig) (s : MrCtx) (addr length : UInt64) (umem : Umem) :
    Prop where
  fits : 0<length.toNat ∧ length.toNat<2^32
  room : ∃ start,FirstFit.FreeAt s.mtt.alloc.pgt.freeList (getNumPage b.pageSize addr length) start
  resolved : ∃ phys : List UInt64,umem.virtToPhysRange=.ok (phys.map some)

section RegMr
variable (b : BuildConfig) (s : State) (h : s.ctx.mtt.Tracks b.debugAssertions s.live)
  (addr length : UInt64) (pdHandle : UInt32) (access : UInt8) (umem : Umem) (key : UInt8)
include h

theorem regMr_returns : (∃ e,(s.ctx.regMr b addr length pdHandle access umem key).result=
      some (.error e)) ∨
    ∃ k,(s.ctx.regMr b addr length pdHandle access umem key).result=some (.ok k) := by
  have hspec := MrCtx.regMr_spec b s.ctx addr length pdHandle access umem key s.live h
  generalize s.ctx.regMr b addr length pdHandle access umem key=c at hspec ⊢
  cases hspec with
  | notPinned e hpin => exact Or.inl ⟨_,rfl⟩
  | refused hpin hres => exact Or.inl ⟨_,rfl⟩
  | dropped hpin mrKey entry hres e => exact Or.inl ⟨_,rfl⟩
  | done hpin mrKey entry hres lengthU32 hlen phys => exact Or.inr ⟨_,rfl⟩

/-- Without pinned pages or a free key the call fails and changes nothing. -/
theorem regMr_fails (hno : umem.pinPages≠.ok () ∨ s.ctx.mtt.alloc.mr.freeList=[]) :
    (∃ e,(s.ctx.regMr b addr length pdHandle access umem key).result=some (.error e)) ∧
      Restored s.ctx (s.ctx.regMr b addr length pdHandle access umem key).next := by
  have hspec := MrCtx.regMr_spec b s.ctx addr length pdHandle access umem key s.live h
  generalize s.ctx.regMr b addr length pdHandle access umem key=c at hspec ⊢
  have hrefuses (hpin : umem.pinPages=.ok ()) :
      Alloc.Refuses s.ctx.mtt.alloc (s.ctx.attempt b addr length key).next.alloc ∧
      (s.ctx.attempt b addr length key).next.mrkeyMap=s.ctx.mtt.mrkeyMap ∧
      (s.ctx.attempt b addr length key).result=some (.error .outOfMemory) := by
    have hnil := hno.resolve_left (fun hne => hne hpin)
    rcases attempt_tracks b s.ctx s.live h addr length key with ⟨hres,hr,hmap,-⟩|⟨idx,_,_,-,ht,-⟩
    · exact ⟨hr,hmap,hres⟩
    · rw [ht.front] at hnil
      cases hnil
  cases hspec with
  | notPinned e hpin => exact ⟨⟨_,rfl⟩,fun _ => Iff.rfl,rfl,rfl⟩
  | refused hpin hres =>
      obtain ⟨hr,hmap,-⟩ := hrefuses hpin
      have hnil := hno.resolve_left (fun hne => hne hpin)
      refine ⟨⟨_,rfl⟩,fun i => ?_,hr.pgt,hmap⟩
      rcases hr.mr with ⟨-,hnext⟩|⟨idx,hcons⟩
      · rw [hnil,hnext]
      · rw [hnil] at hcons
        cases hcons
  | dropped hpin mrKey entry hres e =>
      rw [(hrefuses hpin).2.2] at hres
      cases hres
  | done hpin mrKey entry hres lengthU32 hlen phys =>
      rw [(hrefuses hpin).2.2] at hres
      cases hres

variable (hpin : umem.pinPages=.ok ()) (hkey : s.ctx.mtt.alloc.mr.freeList≠[])
include hpin hkey

/-- Past the pinning a free key is taken, and no failure gives it back. -/
theorem regMr_takes : ¬Restored s.ctx (s.ctx.regMr b addr length pdHandle access umem key).next := by
  rintro ⟨hset,-⟩
  have hspec := MrCtx.regMr_spec b s.ctx addr length pdHandle access umem key s.live h
  rcases regMr_mtt b s.ctx addr length pdHandle access umem key _ hspec with
    ⟨⟨e,herr⟩,-⟩|⟨-,hmtt⟩
  · rw [hpin] at herr
    cases herr
  obtain ⟨idx,rest,hcons⟩ := List.exists_cons_of_ne_nil hkey
  have hnodup := h.freeNodup
  have hmem := (hset idx).mpr (by simp [hcons])
  rw [hmtt,MrCtx.attempt,Mtt.register_mr,hcons] at hmem
  rw [hcons] at hnodup
  exact (List.nodup_cons.mp hnodup).1 hmem

/-- The call succeeds exactly for the regions that can be registered. -/
theorem regMr_ok_iff : (∃ k,(s.ctx.regMr b addr length pdHandle access umem key).result=
    some (.ok k)) ↔ Registrable b s.ctx addr length umem := by
  constructor
  · rintro ⟨k,hk⟩
    obtain ⟨entry,lengthU32,phys,hres,hlen,hphys,-⟩ := s.ctx.regMr_ok b _ _ _ _ _ _ _ hk
    obtain ⟨idx,ht⟩ := Mtt.register_ok _ _ _ _ _ _ hres
    have hpos : 0<getNumPage b.pageSize addr length := by
      rw [← ht.count]
      exact ht.pos
    refine ⟨⟨length_pos_of_getNumPage _ _ _ hpos,(Word.toU32?_some _ _ hlen).1⟩,
      ⟨entry.index.toNat,?_⟩,⟨phys,hphys⟩⟩
    rw [← ht.count]
    exact ⟨ht.inside,fun i hle hlt => ht.free i ⟨hle,hlt⟩⟩
  · rintro ⟨⟨hpos,hlen⟩,⟨start,hle,hfree⟩,phys,hphys⟩
    have hsearch := FirstFit.search_isSome _ _ start (getNumPage_pos b.pageSize addr length hpos)
      hle hfree
    rcases attempt_tracks b s.ctx s.live h addr length key with ⟨hres,-⟩|⟨idx,mrKey,entry,hres,-⟩
    · exact absurd hres (Mtt.register_free _ _ _ key hkey hsearch)
    · exact ⟨mrKey,(s.ctx.regMr_done b addr length pdHandle access umem key mrKey entry phys hpin
        hres hlen hphys).1⟩

end RegMr
end MrRegions

open MrRegions in
/-- A registration that returns an error leaves keys, page table and key map as they were exactly
if the pages cannot be pinned or there is no free key; the only other calls that leak nothing are
those that do not fail, as the region can be registered. -/
theorem reg_mr_restores_iff (b : BuildConfig) (ls : List MrRegions.Label)
    (addr length : UInt64) (pdHandle : UInt32) (access : UInt8) (umem : Umem) (key : UInt8) :
    let s := (MrRegions.run b ls).ctx
    let c := s.regMr b addr length pdHandle access umem key
    ((∀ e,c.result=some (.error e) → Restored s c.next) ↔
      umem.pinPages≠.ok () ∨ s.mtt.alloc.mr.freeList=[] ∨ Registrable b s addr length umem) ∧
    (umem.pinPages≠.ok () ∨ s.mtt.alloc.mr.freeList=[] → ∃ e,c.result=some (.error e)) ∧
    (umem.pinPages=.ok () → s.mtt.alloc.mr.freeList≠[] → Registrable b s addr length umem →
      ∃ k,c.result=some (.ok k)) := by
  intro s c
  have h := (Run.run_inv_all (step b) (Inv b) (step_inv b) {} ls (init_inv b)).tracks
  change (MrRegions.run b ls).ctx.mtt.Tracks b.debugAssertions (MrRegions.run b ls).live at h
  have hfails := regMr_fails b _ h addr length pdHandle access umem key
  refine ⟨?_,fun hno => (hfails hno).1,fun hpin hkey => (regMr_ok_iff b _ h addr length pdHandle
    access umem key hpin hkey).mpr⟩
  rw [← or_assoc]
  by_cases hno : umem.pinPages≠.ok () ∨ s.mtt.alloc.mr.freeList=[]
  · exact iff_of_true (fun _ _ => (hfails hno).2) (Or.inl hno)
  have hpin : umem.pinPages=.ok () := not_not.mp (fun hne => hno (Or.inl hne))
  have hkey : s.mtt.alloc.mr.freeList≠[] := fun hnil => hno (Or.inr hnil)
  rw [or_iff_right hno,← regMr_ok_iff b _ h addr length pdHandle access umem key hpin hkey]
  have htakes := regMr_takes b _ h addr length pdHandle access umem key hpin hkey
  constructor
  · intro hrestored
    rcases regMr_returns b _ h addr length pdHandle access umem key with ⟨e,he⟩|hok
    · exact absurd (hrestored e he) htakes
    · exact hok
  · rintro ⟨k,hk⟩ e he
    change c.result=some (.ok k) at hk
    rw [hk] at he
    cases he

namespace MrRegions

/-- Pages that can be pinned and resolved. -/
def resident (n : Nat) : Umem := ⟨.ok (),.ok (List.replicate n (some 0x40000000))⟩

/-- A region of one page. -/
def onePage (addr : UInt64) : Label := .regMr addr 0x1000 0 0 (resident 1) 0

end MrRegions

open MrRegions in
/-- One page of a fresh device can be registered, so nothing is lost by an error. -/
theorem reg_mr_restores_iff_onePage :
    Registrable ⟨true,.m2⟩ {} 0x200000 0x1000 (resident 1) ∧
    (∀ e,(MrCtx.regMr ⟨true,.m2⟩ {} 0x200000 0x1000 0 0 (resident 1) 0).result=some (.error e) →
      Restored {} (MrCtx.regMr ⟨true,.m2⟩ {} 0x200000 0x1000 0 0 (resident 1) 0).next) ∧
    ∃ k,(MrCtx.regMr ⟨true,.m2⟩ {} 0x200000 0x1000 0 0 (resident 1) 0).result=some (.ok k) := by
  have hreg : Registrable ⟨true,.m2⟩ {} 0x200000 0x1000 (resident 1) := by
    refine ⟨by decide,⟨0,by decide,fun i _ _ => ?_⟩,⟨[0x40000000],rfl⟩⟩
    exact BitVec.getLsbD_zero
  obtain ⟨hiff,-,hok⟩ := reg_mr_restores_iff ⟨true,.m2⟩ [] 0x200000 0x1000 0 0 (resident 1) 0
  exact ⟨hreg,hiff.mpr (Or.inr (Or.inr hreg)),hok rfl (by decide +kernel) hreg⟩

open MrRegions in
/-- A length above 32 bits is refused after the table has granted a key and 2048 pages. -/
theorem long_region_leaks_key_and_pages :
    (MrCtx.regMr ⟨true,.m2⟩ {} 0x200000 0x100000000 0 0 (resident 2048) 0).result=
      some (.error (.invalidInput "Length too large")) ∧
    8191∈Mtt.new.alloc.mr.freeList ∧
    8191∉(MrCtx.regMr ⟨true,.m2⟩ {} 0x200000 0x100000000 0 0
      (resident 2048) 0).next.mtt.alloc.mr.freeList ∧
    Mtt.new.alloc.pgt.freeList.getLsbD 0=false ∧
    (MrCtx.regMr ⟨true,.m2⟩ {} 0x200000 0x100000000 0 0
      (resident 2048) 0).next.mtt.alloc.pgt.freeList.getLsbD 0=true := by
  have hspec := MrCtx.regMr_spec ⟨true,.m2⟩ {} 0x200000 0x100000000 0 0 (resident 2048) 0 []
    (Mtt.new_tracks true)
  -- the key in front of the new table is 8191
  have hkey : 8191∉(MrCtx.regMr ⟨true,.m2⟩ {} 0x200000 0x100000000 0 0
      (resident 2048) 0).next.mtt.alloc.mr.freeList := by
    rcases regMr_mtt _ _ _ _ _ _ _ _ _ hspec with ⟨⟨e,hpin⟩,-⟩|⟨-,hmtt⟩
    · cases hpin
    · rw [hmtt,MrCtx.attempt,Mtt.register_mr]
      change 8191∉MrTableAlloc.fillUpFreeList 8191
      rw [MrTableAlloc.mem_fillUpFreeList 8191 (by decide)]
      decide
  exact ⟨by decide +kernel,List.mem_cons_self ..,hkey,by decide +kernel,by decide +kernel⟩

namespace MrRegions

instance (p : PageSize) (x : MttUpdate) (i : Nat) : Decidable (covers p x i) :=
  inferInstanceAs (Decidable (_ ∧ _))

instance (b : BuildConfig) (s : State) (l : Label) : Decidable (Fresh b s l) :=
  match l with
  | .regMr _ _ _ _ _ _ =>
      decidable_of_iff (∀ x∈deviceMrTable s.ctx.cmds,(∀ r∈s.registered,r.1≠x.mrKey) →
        s.ctx.mtt.alloc.mr.freeList.head?≠some (Mtt.keyIndex x.mrKey) →
        ∀ i<x.basePgtOffset.toNat+getNumPage b.pageSize x.mrBaseVa x.mrLength.toUInt64,
          covers b.pageSize x i → s.ctx.mtt.alloc.pgt.freeList.getLsbD i=true)
        ⟨fun h x hx hne i hi => h x hx.1 hx.2 hne i hi.2 hi,
          fun h x hx hs hne i _ hi => h x ⟨hx,hs⟩ hne i hi⟩
  | .deregMr _ => inferInstanceAs (Decidable True)

end MrRegions

open MrRegions in
/-- In a run in which every registration finds the pages of stale device entries in use, save
those of the key index it will get, no stale device entry reaches into a registered region. -/
theorem stale_keys_reach_nothing (b : BuildConfig) (ls : List MrRegions.Label)
    (hls : Run.Along (MrRegions.step b) (Fresh b) {} ls) :
    Sound b (MrRegions.run b ls) := by
  have h := Run.run_inv (MrRegions.step b) (Fresh b) (fun s => MrRegions.Inv b s ∧ Sound b s)
    (fun s l hl h => ⟨MrRegions.step_inv b s l h.1,step_sound b s l hl h⟩) {} ls hls
    ⟨MrRegions.init_inv b,by simp [Sound,Stale,deviceMrTable]⟩
  exact h.2

open MrRegions in
/-- The region registered last is freed first, and its key and page are used again. -/
theorem stale_keys_reach_nothing_reuse :
    (MrRegions.run ⟨true,.m2⟩ [onePage 0x200000,onePage 0x400000,.deregMr 0x1FFE00,
      onePage 0x600000]).registered=[(0x1FFF00,⟨0,1⟩),(0x1FFE00,⟨1,1⟩)] ∧
    Sound ⟨true,.m2⟩ (MrRegions.run ⟨true,.m2⟩ [onePage 0x200000,onePage 0x400000,
      .deregMr 0x1FFE00,onePage 0x600000]) :=
  ⟨by decide +kernel,stale_keys_reach_nothing _ _ (by decide +kernel)⟩

open MrRegions in
/-- Two regions are freed in the order of their registration. The third gets the second key and
the first page, which the device still has under the first key. -/
theorem stale_key_reaches_new_region :
    (MrRegions.run ⟨true,.m2⟩ [onePage 0x200000,onePage 0x400000,.deregMr 0x1FFF00,
      .deregMr 0x1FFE00,onePage 0x600000]).registered=[(0x1FFE00,⟨0,1⟩)] ∧
    (⟨0x200000,0x1000,0x1FFF00,0,0,0⟩ : MttUpdate)∈deviceMrTable
      (MrRegions.run ⟨true,.m2⟩ [onePage 0x200000,onePage 0x400000,.deregMr 0x1FFF00,
        .deregMr 0x1FFE00,onePage 0x600000]).ctx.cmds ∧
    covers .m2 ⟨0x200000,0x1000,0x1FFF00,0,0,0⟩ 0 := by
  decide +kernel

end BlueRdma
