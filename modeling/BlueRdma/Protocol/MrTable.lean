import BlueRdma.Framework.Run
import BlueRdma.RdmaUtils.Mtt

namespace BlueRdma
namespace MrTable

/-- A call on the translation table, with the random part of the key it may hand out. -/
inductive Label
  | register (numPages : Nat) (key : UInt8)
  | deregister (mrKey : UInt32)
  deriving DecidableEq

/-- The table and the regions that were registered and not yet successfully deregistered. -/
structure State where
  mtt : Mtt := .new
  live : List (UInt32 × PgtEntry) := []

/-- One call, in a build with or without debug assertions. -/
def step (debugAssertions : Bool) (s : State) : Label → State
  | .register numPages key =>
    let c := s.mtt.register debugAssertions numPages key
    ⟨c.next,match c.result with
      | some (.ok r) => s.live++[r]
      | _ => s.live⟩
  | .deregister mrKey =>
    let r := s.mtt.deregister mrKey
    ⟨r.1,match r.2 with
      | .ok () => s.live.filter (fun x => x.1≠mrKey)
      | .error _ => s.live⟩

def run (debugAssertions : Bool) (ls : List Label) : State :=
  Run.run (step debugAssertions) {} ls

theorem step_tracks (d : Bool) (s : State) (l : Label) (h : s.mtt.Tracks d s.live) :
    (step d s l).mtt.Tracks d (step d s l).live := by
  cases l with
  | register numPages key =>
      rcases Mtt.register_cases d s.mtt s.live h numPages key with
        ⟨hres,-,-,hnext⟩|⟨idx,mrKey,entry,hres,-,hnext⟩
      · rw [step]
        dsimp only
        rw [hres]
        exact hnext
      · rw [step]
        dsimp only
        rw [hres]
        exact hnext
  | deregister mrKey =>
      rcases Mtt.deregister_cases d s.mtt s.live h mrKey with ⟨-,heq⟩|⟨entry,-,-,heq,hnext⟩
      · rw [step,heq]
        exact h
      · rw [heq] at hnext
        rw [step,heq]
        exact hnext

theorem run_tracks (d : Bool) (ls : List Label) : (run d ls).mtt.Tracks d (run d ls).live :=
  Run.run_inv_all (step d) (fun s => s.mtt.Tracks d s.live) (step_tracks d) {} ls
    (Mtt.new_tracks d)

/-- Calls on other keys leave a region registered. -/
theorem run_keeps (d : Bool) (s : State) (ls : List Label) (r : UInt32 × PgtEntry)
    (hr : r∈s.live) (hls : Label.deregister r.1∉ls) : r∈(Run.run (step d) s ls).live := by
  induction ls generalizing s with
  | nil => exact hr
  | cons l ls ih =>
      rw [List.mem_cons,not_or] at hls
      apply ih (step d s l) _ hls.2
      cases l with
      | register numPages key =>
          rw [step]
          dsimp only
          split
          · exact List.mem_append_left _ hr
          · exact hr
      | deregister mrKey =>
          have hne : r.1≠mrKey := fun heq => hls.1 (by rw [heq])
          rw [step]
          dsimp only
          split
          · exact List.mem_filter.mpr ⟨hr,by simpa using hne⟩
          · exact hr

end MrTable

open MrTable in
/-- In every build, the registered regions have key indices of their own, outside the free list,
and page-table ranges of their own, inside the table and marked as used. -/
theorem mr_table_invariant (debugAssertions : Bool) (ls : List MrTable.Label) :
    ((MrTable.run debugAssertions ls).live.map (fun r => Mtt.keyIndex r.1)).Nodup ∧
    (MrTable.run debugAssertions ls).live.Pairwise
      (fun r s => ∀ i,r.2.Covers i → ¬s.2.Covers i) ∧
    (∀ r∈(MrTable.run debugAssertions ls).live,
      r.2.index.toNat<2^17 ∧ r.2.index.toNat+r.2.count.toNat≤pgtLen ∧
      (∀ i,r.2.Covers i →
        (MrTable.run debugAssertions ls).mtt.alloc.pgt.freeList.getLsbD i=true) ∧
      Mtt.keyIndex r.1∉(MrTable.run debugAssertions ls).mtt.alloc.mr.freeList) ∧
    (MrTable.run debugAssertions ls).mtt.alloc.mr.freeList.Nodup := by
  have h := run_tracks debugAssertions ls
  refine ⟨h.keys,h.disjoint,?_,h.freeNodup⟩
  intro r hr
  obtain ⟨hpos,hinside⟩ := h.inside r hr
  have hlen : pgtLen=2^17 := rfl
  exact ⟨by omega,hinside,h.used r hr,(h.taken r hr).1⟩

namespace MrTable

/-- Deregistering the key frees the region, nothing else, and only once. -/
structure Undoes (m : Mtt) (mrKey : UInt32) (entry : PgtEntry) : Prop where
  ok : (m.deregister mrKey).2=.ok ()
  taken : Mtt.keyIndex mrKey∉m.alloc.mr.freeList
  key : (m.deregister mrKey).1.alloc.mr.freeList=Mtt.keyIndex mrKey::m.alloc.mr.freeList
  used : ∀ i,entry.Covers i → m.alloc.pgt.freeList.getLsbD i=true
  bits : ∀ i,(m.deregister mrKey).1.alloc.pgt.freeList.getLsbD i=
    (m.alloc.pgt.freeList.getLsbD i && !decide (entry.Covers i))
  again : ∃ e,((m.deregister mrKey).1.deregister mrKey).2=.error e
  kept : ((m.deregister mrKey).1.deregister mrKey).1.alloc=(m.deregister mrKey).1.alloc

theorem undoes_of_mem (m : Mtt) (live : List (UInt32 × PgtEntry)) (h : m.Tracks true live)
    (mrKey : UInt32) (entry : PgtEntry) (hmem : (mrKey,entry)∈live) : Undoes m mrKey entry := by
  rcases Mtt.deregister_cases true m live h mrKey with ⟨hnot,-⟩|⟨entry',-,hmem',heq,hnext⟩
  · exact absurd hmem (hnot entry rfl)
  obtain rfl : entry'=entry :=
    congrArg Prod.snd (h.unique true m live _ _ hmem' hmem rfl)
  -- the key is gone from the map, so that a second call finds nothing
  have hagain : (m.deregister mrKey).1.deregister mrKey=
      ((m.deregister mrKey).1,.error (.invalidInput "failed to remove mr key")) := by
    rw [Mtt.deregister,heq]
    simp
  refine ⟨by rw [heq],(h.taken _ hmem).1,by rw [heq],h.used _ hmem,?_,⟨_,by rw [hagain]⟩,
    by rw [hagain]⟩
  intro i
  rw [heq]
  exact FirstFit.getLsbD_clear ..

end MrTable

open MrTable in
/-- A region that was registered can be deregistered, after any calls on other keys, exactly in
the builds that have debug assertions. -/
theorem deregister_undoes_register_iff (debugAssertions : Bool) (ls ls' : List MrTable.Label)
    (numPages : Nat) (key : UInt8) (mrKey : UInt32) (entry : PgtEntry)
    (hreg : ((MrTable.run debugAssertions ls).mtt.register debugAssertions numPages key).result=
      some (.ok (mrKey,entry)))
    (hothers : Label.deregister mrKey∉ls') :
    Undoes (MrTable.run debugAssertions (ls++.register numPages key::ls')).mtt mrKey entry ↔
      debugAssertions=true := by
  have h := run_tracks debugAssertions (ls++.register numPages key::ls')
  constructor
  · intro hun
    rcases Mtt.deregister_cases _ _ _ h mrKey with ⟨-,heq⟩|⟨_,hd,-⟩
    · have hok := hun.ok
      rw [heq] at hok
      cases hok
    · exact hd
  · rintro rfl
    apply undoes_of_mem _ _ h
    rw [MrTable.run,Run.run_append,Run.run_cons]
    apply run_keeps true _ ls' (mrKey,entry) _ hothers
    rw [MrTable.run] at hreg
    rw [step]
    dsimp only
    rw [hreg]
    exact List.mem_append_right _ (List.mem_singleton_self _)

/-- Two pages are registered and given back after a call on another key. -/
theorem deregister_undoes_register_first :
    (Mtt.new.register true 2 7).result=some (.ok (0x1FFF07,⟨0,2⟩)) ∧
    (MrTable.Undoes (MrTable.run true [.register 2 7,.register 1 3]).mtt 0x1FFF07 ⟨0,2⟩ ↔
      true=true) :=
  ⟨by decide +kernel,deregister_undoes_register_iff true [] [.register 1 3] 2 7 0x1FFF07 ⟨0,2⟩
    (by decide +kernel) (by decide)⟩

/-- Without debug assertions the key of a registered region is refused. -/
theorem release_build_keeps_region :
    (Mtt.new.register false 1 0).result=some (.ok (0x1FFF00,⟨0,1⟩)) ∧
    ((Mtt.new.register false 1 0).next.deregister 0x1FFF00).2=
      .error (.invalidInput "failed to remove mr key") :=
  ⟨by decide +kernel,by decide +kernel⟩

end BlueRdma
