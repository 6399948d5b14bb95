import BlueRdma.Framework.Progress
import BlueRdma.Protocol.FrameRing

namespace BlueRdma
namespace FrameSystem

/-- A schedule on which the call keeps running and the device ends up with nothing left to
consume. -/
structure Live (s : FrameSystem) (ls : Nat → FrameStep) : Prop where
  enabled : ∀ n,Enabled (Run.trace step s ls n) (ls n)
  fair : ∀ n,∃ m,n ≤ m ∧ ∃ ok,ls m=.next ok
  drained : ∃ n,∀ m,n ≤ m → (Run.trace step s ls m).published=0

def Returns (s : FrameSystem) (ls : Nat → FrameStep) : Prop :=
  ∃ n,(Run.trace step s ls n).phase=.idle

/-- The steps the call has in front of it. -/
def remaining : SendPhase → Nat
  | .pushing _ _ => 3
  | .pushed => 2
  | .told => 1
  | .idle => 0

/-- The call is not held up. -/
def Moving (s : FrameSystem) : Prop :=
  s.phase≠.idle ∧ (s.phase.isPushing=true → s.ring.len < ringBufLen)

/-- The call is in its loop and the ring looks full. -/
def Stuck (s : FrameSystem) : Prop := s.phase.isPushing=true ∧ s.ring.len=ringBufLen

theorem Stuck.step (s : FrameSystem) (l : FrameStep) (hl : Enabled s l) (h : Stuck s) :
    Stuck (s.step l) := by
  obtain ⟨hpushing,hfull⟩ := h
  cases l with
  | send frame =>
      rw [hl.1] at hpushing
      cases hpushing
  | consume n => exact ⟨hpushing,hfull⟩
  | next ok =>
      obtain ⟨phase,hphase⟩ : ∃ phase,s.phase=phase := ⟨_,rfl⟩
      cases phase with
      | pushing desc frame =>
          rw [step_full s desc frame ok hphase hfull]
          exact ⟨hpushing,hfull⟩
      | _ =>
          rw [hphase] at hpushing
          cases hpushing

/-- A step that ends behind the loop. -/
theorem Moving.of_phase (s s' : FrameSystem) (hnot : s'.phase.isPushing=false)
    (hlt : remaining s'.phase < remaining s.phase) :
    s'.phase=.idle ∨ Moving s' ∧ remaining s'.phase < remaining s.phase := by
  by_cases hidle : s'.phase=.idle
  · exact Or.inl hidle
  · refine Or.inr ⟨⟨hidle,fun hp => ?_⟩,hlt⟩
    rw [hnot] at hp
    cases hp

/-- A step of the call brings it on. -/
theorem Moving.next (s : FrameSystem) (ok : Bool) (h : Moving s) :
    (s.step (.next ok)).phase=.idle ∨ Moving (s.step (.next ok)) ∧
      remaining (s.step (.next ok)).phase < remaining s.phase := by
  obtain ⟨phase,hphase⟩ : ∃ phase,s.phase=phase := ⟨_,rfl⟩
  cases phase with
  | idle => exact absurd hphase h.1
  | pushing desc frame =>
      have hroom := h.2 (by rw [hphase]; rfl)
      rw [step_room s desc frame ok hphase hroom]
      refine Moving.of_phase s _ rfl ?_
      rw [hphase]
      exact Nat.lt_succ_self 2
  | pushed =>
      rw [step_pushed s ok hphase]
      refine Moving.of_phase s _ rfl ?_
      rw [hphase]
      exact Nat.lt_succ_self 1
  | told =>
      rw [step_told s ok hphase]
      exact Or.inl rfl

/-- A step of the device leaves it where it is. -/
theorem Moving.step (s : FrameSystem) (l : FrameStep) (hl : Enabled s l) (h : Moving s) :
    (s.step l).phase=.idle ∨ Moving (s.step l) ∧
      remaining (s.step l).phase ≤ remaining s.phase ∧
      ∀ ok,l=.next ok → remaining (s.step l).phase < remaining s.phase := by
  cases l with
  | send frame => exact absurd hl.1 h.1
  | consume n => exact Or.inr ⟨h,le_rfl,fun ok hok => nomatch hok⟩
  | next ok => exact (h.next s ok).imp_right fun h' => ⟨h'.1,h'.2.le,fun _ _ => h'.2⟩

section Schedule
variable (s : FrameSystem) (ls : Nat → FrameStep) (hlive : Live s ls)
include hlive

theorem Stuck.trace (h : Stuck s) (n : Nat) : Stuck (Run.trace FrameSystem.step s ls n) := by
  induction n with
  | zero => exact h
  | succ n ih => exact Stuck.step _ _ (hlive.enabled n) ih

/-- A call that is not held up returns. -/
theorem Moving.returns (h : Moving s) : Returns s ls := by
  by_contra hnever
  have hidle : ∀ n,(Run.trace FrameSystem.step s ls n).phase≠.idle := fun n hn => hnever ⟨n,hn⟩
  have hmoving : ∀ n,Moving (Run.trace FrameSystem.step s ls n) := by
    intro n
    induction n with
    | zero => exact h
    | succ n ih =>
        rcases Moving.step _ _ (hlive.enabled n) ih with hdone|⟨hnext,-⟩
        · exact absurd hdone (hidle (n+1))
        · exact hnext
  have hstep : ∀ n,remaining (Run.trace FrameSystem.step s ls (n+1)).phase ≤
        remaining (Run.trace FrameSystem.step s ls n).phase ∧
      ∀ ok,ls n=.next ok → remaining (Run.trace FrameSystem.step s ls (n+1)).phase<
        remaining (Run.trace FrameSystem.step s ls n).phase := by
    intro n
    rcases Moving.step _ _ (hlive.enabled n) (hmoving n) with hdone|⟨-,hle⟩
    · exact absurd hdone (hidle (n+1))
    · exact hle
  -- each step of the call lowers the number, and there are steps without end
  obtain ⟨n,-,hn⟩ := Run.eventually_of_rank FrameSystem.step (·.phase=.idle)
    (fun t => remaining t.phase) (fun _ l => ∃ ok,l=.next ok) s ls (by
      intro n hbusy
      obtain ⟨hle,hnext⟩ := hstep n
      rcases hle.lt_or_eq with hlt|heq
      · exact Or.inr (Or.inl hlt)
      · refine Or.inr (Or.inr ⟨?_,heq,fun _ hl => hl⟩)
        rintro ⟨ok,hok⟩
        exact absurd heq (hnext ok hok).ne) (fun n _ => hlive.fair n) 0
  exact hidle n hn

end Schedule

/-- A call in a reachable state returns on a live schedule just if the ring does not look full to
the driver when it is made. -/
theorem frame_send_returns_iff (base : UInt64) (bytes : Nat → UInt8) (ls : List FrameStep)
    (hls : Run.Along step Enabled (init base bytes) ls) (frame : List UInt8)
    (hsend : Enabled (Run.run step (init base bytes) ls) (.send frame)) (schedule : Nat → FrameStep)
    (hlive : Live ((Run.run step (init base bytes) ls).step (.send frame)) schedule) :
    Returns ((Run.run step (init base bytes) ls).step (.send frame)) schedule ↔
      (Run.run step (init base bytes) ls).ring.len < ringBufLen := by
  have hgood := run_good base bytes ls hls
  obtain ⟨buf,-,hstep⟩ := hgood.send _ frame hsend.1 hsend.2
  rw [hstep] at hlive ⊢
  constructor
  · rintro ⟨n,hn⟩
    refine Nat.lt_of_le_of_ne (len_le _ hgood) fun hfull => ?_
    have hstuck := Stuck.trace _ schedule hlive ⟨rfl,hfull⟩ n
    rw [Stuck,hn] at hstuck
    cases hstuck.1
  · intro hroom
    exact Moving.returns _ schedule hlive ⟨SendPhase.noConfusion,fun _ => hroom⟩

/-- A ring with three frames in it, and a call. -/
def partlyFilled : FrameSystem := Run.run step (init 0 fun _ => 0) (sends [1] 3)

/-- The device consumes all frames between the two register accesses of the call. -/
def consumedOnce (n : Nat) : FrameStep := if n=2 then .consume 4 else .next true

theorem consumedOnce_of_ne (n : Nat) (h : n≠2) : consumedOnce n=.next true := if_neg h

theorem live_consumedOnce : Live (partlyFilled.step (.send [2,3])) consumedOnce := by
  have hend : (Run.trace step (partlyFilled.step (.send [2,3])) consumedOnce 4).phase=.idle := rfl
  have hfixed := Run.trace_eq_of_fixed step (partlyFilled.step (.send [2,3])) consumedOnce 4 (by
    intro m hm
    rw [consumedOnce_of_ne m (by omega)]
    exact step_idle _ true hend)
  refine ⟨?_,?_,4,?_⟩
  · intro n
    by_cases hn : n=2
    · subst hn
      change 4 ≤ published _
      decide +kernel
    · rw [consumedOnce_of_ne n hn]
      trivial
  · intro n
    exact ⟨n+3,by omega,true,consumedOnce_of_ne _ (by omega)⟩
  · intro m hm
    rw [hfixed m hm]
    decide +kernel

theorem frame_send_returns_iff_partlyFilled :
    partlyFilled.ring.len=3 ∧ Returns (partlyFilled.step (.send [2,3])) consumedOnce := by
  have hlen : partlyFilled.ring.len=3 := by decide +kernel
  obtain ⟨hls,hstalled⟩ := run_sends 0 (fun _ => 0) [1] (by decide) 3 (by decide)
  refine ⟨hlen,(frame_send_returns_iff 0 (fun _ => 0) (sends [1] 3) hls [2,3]
    ⟨hstalled.idle,by decide⟩ consumedOnce live_consumedOnce).mpr ?_⟩
  exact hlen.trans_lt (by decide)

/-- The device consumes a number of descriptors, and the call goes on for ever. -/
def consumedAll (k n : Nat) : FrameStep := if n=0 then .consume k else .next true

theorem consumedAll_of_pos (k n : Nat) (h : 0<n) : consumedAll k n=.next true :=
  if_neg (Nat.pos_iff_ne_zero.mp h)

/-- A full ring that the device empties only after the call is made. -/
theorem live_consumedAll (s : FrameSystem) (frame : List UInt8) (k : Nat) (h : Stalled s frame k)
    (hfull : k=ringBufLen) (hframe : frame.length ≤ frameSlotSize) :
    Live (s.step (.send frame)) (consumedAll k) ∧
      ¬Returns (s.step (.send frame)) (consumedAll k) := by
  obtain ⟨buf,-,hstep⟩ := h.good.send s frame h.idle hframe
  have hsync := h.synced s frame k
  have hpub : (s.step (.send frame)).published=k := by
    rw [hstep]
    exact hsync.published_eq
  have hafter : ((s.step (.send frame)).step (.consume k)).published=0 := by
    have hnone := (hsync.consume k hsync.published_eq.ge).published_eq
    rw [Nat.zero_add,Nat.sub_self] at hnone
    rw [hstep]
    exact hnone
  have hlen : s.ring.len=ringBufLen := h.len_eq.trans hfull
  have hfixed := Run.trace_eq_of_fixed step (s.step (.send frame)) (consumedAll k) 1 (by
    intro m hm
    rw [consumedAll_of_pos _ m hm]
    refine step_full _ (descOf s.queue.bufBasePhysAddr s.frames.length frame) frame true ?_ ?_
    · change (s.step (.send frame)).phase=_
      rw [hstep]
    · change (s.step (.send frame)).ring.len=_
      rw [hstep]
      exact hlen)
  have hlive : Live (s.step (.send frame)) (consumedAll k) := by
    refine ⟨?_,?_,1,?_⟩
    · intro n
      rcases Nat.eq_zero_or_pos n with rfl|hn
      · exact hpub.ge
      · rw [consumedAll_of_pos _ n hn]
        trivial
    · exact fun n => ⟨n+1,Nat.le_succ n,true,consumedAll_of_pos _ _ n.succ_pos⟩
    · intro m hm
      rw [hfixed m hm]
      exact hafter
  refine ⟨hlive,?_⟩
  rintro ⟨n,hn⟩
  have hstuck := Stuck.trace _ _ hlive (by rw [hstep]; exact ⟨rfl,hlen⟩) n
  rw [Stuck,hn] at hstuck
  cases hstuck.1

theorem run_sends_stuck (frame : List UInt8) (hframe : frame.length ≤ frameSlotSize) (k : Nat)
    (hfull : k=ringBufLen) :
    let ls := sends frame k
    let s := Run.run step (init 0 fun _ => 0) ls
    Run.Along step Enabled (init 0 fun _ => 0) ls ∧ Enabled s (.send frame) ∧
      Live (s.step (.send frame)) (consumedAll k) ∧
      ¬Returns (s.step (.send frame)) (consumedAll k) := by
  intro ls s
  obtain ⟨hls,h⟩ := run_sends 0 (fun _ => 0) frame hframe k hfull.le
  exact ⟨hls,⟨h.idle,hframe⟩,live_consumedAll s frame k h hfull hframe⟩

/-- After 4096 calls against a device that has not consumed anything so far, the next call never
returns although the device then consumes all it was told of. -/
theorem full_ring_send_spins :
    let ls := sends [1] 4096
    let s := Run.run step (init 0 fun _ => 0) ls
    Run.Along step Enabled (init 0 fun _ => 0) ls ∧ Enabled s (.send [1]) ∧
      Live (s.step (.send [1])) (consumedAll 4096) ∧
      ¬Returns (s.step (.send [1])) (consumedAll 4096) :=
  run_sends_stuck [1] (by decide) 4096 rfl

end FrameSystem
end BlueRdma
