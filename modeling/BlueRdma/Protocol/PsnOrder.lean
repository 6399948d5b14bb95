import BlueRdma.Protocol.SendWindow

namespace BlueRdma
namespace SendWindow

/-- The context and the requests carry the PSNs of their positions, whatever was accepted. -/
structure Placed (s : State) : Prop where
  psn : s.ctx.psn=Psn.wrap s.next
  psnAcked : s.ctx.psnAcked=Psn.wrap s.acked
  acked : s.acked ≤ s.next
  requests : ∀ r∈s.requests,r.psn=Psn.wrap r.start ∧ r.stop ≤ s.next

theorem step_placed (s : State) (l : Label) (h : Placed s) : Placed (step s l) := by
  cases l with
  | nextWr n =>
      rw [step]
      rcases hnext : s.ctx.nextWr n with ⟨ctx,_|⟨msn,psn⟩⟩
      · have hctx := s.ctx.nextWr_none n (by rw [hnext])
        rw [hnext] at hctx
        dsimp only at hctx ⊢
        rw [hctx]
        exact h
      · obtain ⟨-,hpsn,hctx,-,-⟩ := s.ctx.nextWr_some n msn psn (by rw [hnext])
        rw [hnext] at hctx
        dsimp only at hctx ⊢
        subst hctx
        refine ⟨?_,h.psnAcked,h.acked.trans (Nat.le_add_right ..),?_⟩
        · rw [h.psn]
          exact Psn.wrap_add ..
        · intro r hr
          rcases List.mem_append.mp hr with hr|hr
          · exact ⟨(h.requests r hr).1,(h.requests r hr).2.trans (Nat.le_add_right ..)⟩
          · rw [List.mem_singleton.mp hr]
            exact ⟨hpsn.trans h.psn,le_rfl⟩
  | ackPsn p =>
      rw [step]
      split_ifs with hp
      · exact ⟨h.psn,rfl,hp.2,h.requests⟩
      · exact h
  | ackMsn k =>
      rw [step]
      split
      · split_ifs
        · exact ⟨h.psn,h.psnAcked,h.acked,h.requests⟩
        · exact h
      · exact h

theorem run_placed (ls : List Label) : Placed (run ls) :=
  Run.run_inv_all step Placed step_placed {} ls ⟨rfl,rfl,le_rfl,by simp⟩

/-- The PSN `i` places after the last one acknowledged. -/
def ahead (s : State) (i : Nat) : Psn := s.ctx.psnAcked+UInt32.ofNat i

theorem ahead_eq (s : State) (h : Placed s) (i : Nat) (hi : i<2^32) :
    ahead s i=Psn.wrap (s.acked+i) := by
  rw [ahead,h.psnAcked,Psn.wrap_add,UInt32.toNat_ofNat_of_lt' hi]

/-- The order of the PSNs that are outstanding is that of their positions. -/
def Ordered (s : State) : Prop :=
  ∀ i j,i ≤ outstandingPsns s → j ≤ outstandingPsns s → (ahead s i).cmp (ahead s j)=compare i j

/-- The last PSN of half the circle is taken to be before the first. -/
theorem ordered_iff (s : State) (h : Placed s) : Ordered s ↔ outstandingPsns s < maxPsnWindow := by
  have hmax : maxPsnWindow=2^23 := rfl
  constructor
  · intro hord
    by_contra hwide
    have hcmp := hord 0 (2^23) (Nat.zero_le _) (by omega)
    rw [ahead_eq s h 0 (by decide),ahead_eq s h (2^23) (by decide),Psn.cmp_wrap,Serial.cmp,
      Serial.dist_of_lt _ _ _ (by omega) (by omega),if_neg (by omega),if_neg (by omega)] at hcmp
    cases hcmp
  · intro hw i j hi hj
    rw [ahead_eq s h i (by omega),ahead_eq s h j (by omega),Psn.cmp_wrap,
      Serial.cmp_near _ _ _ (by omega) (by omega)]
    rcases Nat.lt_trichotomy i j with hij|rfl|hij
    · rw [Nat.compare_eq_lt.mpr hij,Nat.compare_eq_lt.mpr (by omega)]
    · rw [Nat.compare_eq_eq.mpr rfl,Nat.compare_eq_eq.mpr rfl]
    · rw [Nat.compare_eq_gt.mpr hij,Nat.compare_eq_gt.mpr (by omega)]

/-- The tests made on a request that has unacknowledged PSNs: whether all its PSNs lie before a
PSN and, if none of them is acknowledged, whether it starts before that PSN. -/
theorem request_tests (s : State) (h : Placed s) (hw : outstandingPsns s < maxPsnWindow)
    (r : Request) (hr : r∈s.requests) (hopen : Unacked s r) (i : Nat)
    (hi : i ≤ outstandingPsns s) :
    (r.psn+r.numPsn≤ahead s i ↔ r.stop ≤ s.acked+i) ∧
    (s.acked ≤ r.start → (r.psn<ahead s i ↔ r.start < s.acked+i)) := by
  have hmax : maxPsnWindow=2^23 := rfl
  obtain ⟨hpsn,hstop⟩ := h.requests r hr
  rw [Unacked] at hopen
  rw [outstandingPsns] at hw hi
  have hend : r.stop=r.start+r.numPsn.toNat := rfl
  rw [ahead_eq s h i (by omega),hpsn,Psn.wrap_add,← hend]
  refine ⟨Psn.wrap_le _ _ (by omega) (by omega),fun hstart => Psn.wrap_lt _ _ (by omega) (by omega)⟩

end SendWindow

open SendWindow in
/-- In every state of the send queue's window, the order of PSNs is a linear order on the
outstanding ones exactly if there are fewer of them than the window allows, and then the tests
made on outstanding requests come out as they would on positions. -/
theorem outstanding_psns_ordered_iff (ls : List SendWindow.Label) :
    (Ordered (SendWindow.run ls) ↔ outstandingPsns (SendWindow.run ls) < maxPsnWindow) ∧
    (outstandingPsns (SendWindow.run ls) < maxPsnWindow →
      ∀ r∈(SendWindow.run ls).requests,Unacked (SendWindow.run ls) r →
        ∀ i ≤ outstandingPsns (SendWindow.run ls),
          (r.psn+r.numPsn≤ahead (SendWindow.run ls) i ↔ r.stop ≤ (SendWindow.run ls).acked+i) ∧
          ((SendWindow.run ls).acked ≤ r.start →
            (r.psn<ahead (SendWindow.run ls) i ↔ r.start < (SendWindow.run ls).acked+i))) :=
  ⟨ordered_iff _ (run_placed ls),fun hw r hr hopen i hi =>
    request_tests _ (run_placed ls) hw r hr hopen i hi⟩

open SendWindow in
/-- A single request may fill the window; its first PSN then compares as later than the PSN
after its last. -/
theorem full_window_misordered :
    (SendWindow.run [.nextWr 0x800000]).requests=[⟨0,⟨0⟩,0x800000,0⟩] ∧
    outstandingPsns (SendWindow.run [.nextWr 0x800000])=maxPsnWindow ∧
    (ahead (SendWindow.run [.nextWr 0x800000]) 0).cmp
      (ahead (SendWindow.run [.nextWr 0x800000]) maxPsnWindow)=.gt := by
  decide +kernel

end BlueRdma
