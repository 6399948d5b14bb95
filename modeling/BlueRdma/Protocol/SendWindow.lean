import BlueRdma.Framework.Run
import BlueRdma.RdmaUtils.Qp

namespace BlueRdma
namespace SendWindow

/-- What an accepted request was given, and the position of its first PSN in the unbounded
stream of PSNs handed out. -/
structure Request where
  msn : UInt16
  psn : Psn
  numPsn : UInt32
  start : Nat
  deriving DecidableEq

def Request.stop (r : Request) : Nat := r.start+r.numPsn.toNat

/-- The PSNs of a request. -/
def Request.Uses (r : Request) (p : Psn) : Prop := ∃ i : UInt32,i.toNat < r.numPsn.toNat ∧ p=r.psn+i

/-- The context of one QP with the requests it accepted, the number of PSNs handed out, the
number of PSNs acknowledged and the number of requests acknowledged by their MSN. -/
structure State where
  ctx : SendQueueContext := .init
  requests : List Request := []
  next : Nat := 0
  acked : Nat := 0
  ackedWrs : Nat := 0

inductive Label
  | nextWr (numPsn : UInt32)
  | ackPsn (position : Nat)
  | ackMsn (index : Nat)

/-- Acknowledgements go to a PSN that has been handed out and not been acknowledged yet, and to
the MSN of a request after the last one acknowledged. -/
def step (s : State) : Label → State
  | .nextWr n => match s.ctx.nextWr n with
    | (ctx,none) => {s with ctx := ctx}
    | (ctx,some (msn,psn)) =>
      {s with ctx := ctx,requests := s.requests++[⟨msn,psn,n,s.next⟩],next := s.next+n.toNat}
  | .ackPsn p =>
    if s.acked ≤ p ∧ p ≤ s.next then {s with ctx := s.ctx.updatePsnAcked (Psn.wrap p),acked := p}
    else s
  | .ackMsn k => match s.requests[k]? with
    | some r =>
      if s.ackedWrs ≤ k then {s with ctx := s.ctx.updateMsnAcked r.msn,ackedWrs := k+1} else s
    | none => s

def run (ls : List Label) : State := Run.run step {} ls

def outstandingPsns (s : State) : Nat := s.next-s.acked

def outstandingWrs (s : State) : Nat := s.requests.length-s.ackedWrs

/-- The request has a PSN that is not acknowledged. -/
def Unacked (s : State) (r : Request) : Prop := s.acked < r.stop

/-- The sum that the window check takes modulo `2^24` is below `2^24`, or the other window is
full. -/
def Fits (s : State) : Label → Prop
  | .nextWr n => outstandingPsns s+n.toNat<2^24 ∨ maxSendWr≤(s.ctx.msn-s.ctx.msnAcked).toNat
  | .ackPsn _ | .ackMsn _ => True

instance (s : State) (l : Label) : Decidable (Fits s l) :=
  match l with
  | .nextWr _ => inferInstanceAs (Decidable (_ ∨ _))
  | .ackPsn _ | .ackMsn _ => inferInstanceAs (Decidable True)

structure Inv (s : State) : Prop where
  psn : s.ctx.psn=Psn.wrap s.next
  psnAcked : s.ctx.psnAcked=Psn.wrap s.acked
  acked : s.acked ≤ s.next
  window : s.next ≤ s.acked+2^23
  msn : s.ctx.msn=Msn.wrap s.requests.length
  msnAcked : s.ctx.msnAcked=Msn.wrap (s.ackedWrs-1)
  ackedWrs : s.ackedWrs ≤ s.requests.length
  wrs : s.requests.length ≤ s.ackedWrs-1+2^15
  msns : s.requests.map Request.msn=(List.range s.requests.length).map Msn.wrap
  psns : ∀ r∈s.requests,r.psn=Psn.wrap r.start ∧ r.numPsn.toNat≤2^23 ∧ r.stop ≤ s.next
  laid : s.requests.Pairwise (fun a b => a.stop≤b.start)

theorem outstanding_psn (s : State) (h : Inv s) (n : UInt32) :
    (s.ctx.psn-s.ctx.psnAcked+n).toNat=(outstandingPsns s+n.toNat)%2^24 := by
  have hdist : (s.ctx.psn-s.ctx.psnAcked).toNat=s.next-s.acked := by
    have hwindow := h.window
    rw [Psn.sub_psn_toNat,h.psn,h.psnAcked,Psn.wrap_toNat,Psn.wrap_toNat]
    rw [show 2^24=2*2^23 from rfl,Serial.dist_mod _ _ _ (by decide)]
    exact Serial.dist_of_le _ _ _ h.acked (by omega)
  rw [Psn.add_toNat,hdist,outstandingPsns]

/-- The request acknowledged last still counts. -/
theorem outstanding_msn (s : State) (h : Inv s) :
    (s.ctx.msn-s.ctx.msnAcked).toNat=s.requests.length-(s.ackedWrs-1) := by
  have hwrs := h.wrs
  have hacked := h.ackedWrs
  rw [h.msn,h.msnAcked,Msn.wrap_sub_wrap _ _ (by omega) (by omega)]

/-- The check bounds the exact numbers exactly if its sum does not wrap or the MSN window
refuses the request anyway. -/
theorem sound_iff_fits (s : State) (h : Inv s) (n : UInt32) (hn : n.toNat≤2^24) :
    ((s.ctx.nextWr n).2.isSome →
      outstandingPsns s+n.toNat ≤ maxPsnWindow ∧ outstandingWrs s < maxSendWr) ↔
    Fits s (.nextWr n) := by
  have hwindow := h.window
  have hpsn := outstanding_psn s h n
  have hmsn := outstanding_msn s h
  have hle : outstandingPsns s ≤ 2^23 := by rw [outstandingPsns]; omega
  have hwrs : outstandingWrs s ≤ (s.ctx.msn-s.ctx.msnAcked).toNat := by
    rw [hmsn,outstandingWrs]
    omega
  rw [SendQueueContext.nextWr_isSome,hpsn,Fits]
  generalize (s.ctx.msn-s.ctx.msnAcked).toNat=m at *
  generalize outstandingPsns s=o at *
  have hmax : maxPsnWindow=2^23 := rfl
  rw [hmax]
  constructor
  · intro hsound
    by_contra hno
    rw [not_or,not_lt,not_le] at hno
    have := (hsound ⟨by omega,hno.2⟩).1
    omega
  · rintro hfits ⟨hsum,hroom⟩
    have hlt := hfits.resolve_right (by omega)
    rw [Nat.mod_eq_of_lt hlt] at hsum
    exact ⟨hsum,by omega⟩

theorem step_nextWr (s : State) (h : Inv s) (n : UInt32) (hl : Fits s (.nextWr n)) :
    Inv (step s (.nextWr n)) := by
  rw [step]
  rcases hnext : s.ctx.nextWr n with ⟨ctx,_|⟨msn,psn⟩⟩
  · have hctx := s.ctx.nextWr_none n (by rw [hnext])
    rw [hnext] at hctx
    dsimp only at hctx ⊢
    rw [hctx]
    exact h
  · obtain ⟨hmsn,hpsn,hctx,hsum,hroom⟩ := s.ctx.nextWr_some n msn psn (by rw [hnext])
    rw [hnext] at hctx
    dsimp only at hctx ⊢
    subst hctx
    have hwrs := h.ackedWrs
    have hlast := h.wrs
    rw [outstanding_psn s h n,
      Nat.mod_eq_of_lt (hl.resolve_right (not_le.mpr hroom)),outstandingPsns] at hsum
    rw [outstanding_msn s h] at hroom
    have hpsnWindow : maxPsnWindow=2^23 := rfl
    have hsendWr : maxSendWr=2^15 := rfl
    have hacked := h.acked
    refine ⟨?_,h.psnAcked,?_,?_,?_,h.msnAcked,?_,?_,?_,?_,?_⟩ <;> dsimp only
    · rw [h.psn]
      exact Psn.wrap_add _ _
    · omega
    · omega
    · rw [h.msn,List.length_append,List.length_singleton]
      exact Msn.wrap_succ _
    · rw [List.length_append,List.length_singleton]
      omega
    · rw [List.length_append,List.length_singleton]
      omega
    · rw [List.map_append,h.msns,List.length_append,List.length_singleton,List.range_succ,
        List.map_append,List.map_singleton,List.map_singleton,hmsn,h.msn]
    · intro r hr
      rcases List.mem_append.mp hr with hr|hr
      · obtain ⟨hp,hnum,hstop⟩ := h.psns r hr
        exact ⟨hp,hnum,by omega⟩
      · rw [List.mem_singleton.mp hr]
        exact ⟨hpsn.trans h.psn,by dsimp only; omega,le_rfl⟩
    · refine List.pairwise_append.mpr ⟨h.laid,List.pairwise_singleton _ _,?_⟩
      intro a ha b hb
      rw [List.mem_singleton.mp hb]
      exact (h.psns a ha).2.2

theorem step_inv (s : State) (l : Label) (hl : Fits s l) (h : Inv s) : Inv (step s l) := by
  cases l with
  | nextWr n => exact step_nextWr s h n hl
  | ackPsn p =>
      rw [step]
      split_ifs with hp
      · have hwindow := h.window
        exact ⟨h.psn,rfl,hp.2,by dsimp only; omega,h.msn,h.msnAcked,h.ackedWrs,h.wrs,h.msns,
          h.psns,h.laid⟩
      · exact h
  | ackMsn k =>
      rw [step]
      rcases hk : s.requests[k]? with _|r
      · exact h
      · dsimp only
        split_ifs with hnew
        · obtain ⟨hlt,hget⟩ := List.getElem?_eq_some_iff.mp hk
          have hmsn : r.msn=Msn.wrap k := by
            have heq := congrArg (fun l => l[k]?) h.msns
            simpa [hlt,hget] using heq
          have hwrs := h.wrs
          exact ⟨h.psn,h.psnAcked,h.acked,h.window,h.msn,hmsn,hlt,by dsimp only; omega,h.msns,
            h.psns,h.laid⟩
        · exact h

theorem init_inv : Inv {} :=
  ⟨rfl,rfl,le_rfl,by decide,rfl,rfl,le_rfl,by decide,rfl,by simp,List.Pairwise.nil⟩

/-- A request with an unacknowledged PSN shares no PSN with a later one. -/
theorem uses_disjoint (s : State) (h : Inv s) :
    s.requests.Pairwise (fun a b => Unacked s a → Unacked s b → ∀ p,a.Uses p → ¬b.Uses p) := by
  refine h.laid.imp_of_mem ?_
  rintro a b ha hb hab hopen - p ⟨i,hi,hpa⟩ ⟨j,hj,hpb⟩
  obtain ⟨hastart,hanum,-⟩ := h.psns a ha
  obtain ⟨hbstart,-,hbstop⟩ := h.psns b hb
  have hwindow := h.window
  have heq : Psn.wrap (a.start+i.toNat)=Psn.wrap (b.start+j.toNat) := by
    rw [← Psn.wrap_add,← Psn.wrap_add,← hastart,← hbstart,← hpa,hpb]
  rw [Psn.wrap_eq_iff] at heq
  rw [Unacked] at hopen
  simp only [Request.stop] at *
  omega

/-- Requests not acknowledged by their MSN have MSNs of their own. -/
theorem msn_nodup (s : State) (h : Inv s) : ((s.requests.drop s.ackedWrs).map Request.msn).Nodup := by
  have hwrs := h.wrs
  rw [List.map_drop,h.msns,← List.map_drop,List.range_eq_range',List.drop_range']
  refine List.Nodup.map_on ?_ (List.nodup_range' ..)
  intro a ha b hb hab
  have ha := List.mem_range'_1.mp ha
  have hb := List.mem_range'_1.mp hb
  exact (Msn.wrap_inj a b (by omega) (by omega)).mp hab

end SendWindow

open SendWindow in
/-- In a run in which every request fits the PSN space together with what is outstanding, no two
outstanding requests share a PSN or an MSN. In every state reached, the window check is exact for
the requests that fit and for no others, and a refused request changes nothing. -/
theorem send_window_sound (ls : List SendWindow.Label)
    (hls : Run.Along SendWindow.step Fits {} ls) :
    (SendWindow.run ls).requests.Pairwise (fun a b => Unacked (SendWindow.run ls) a →
      Unacked (SendWindow.run ls) b → ∀ p,a.Uses p → ¬b.Uses p) ∧
    (((SendWindow.run ls).requests.drop (SendWindow.run ls).ackedWrs).map Request.msn).Nodup ∧
    ∀ n : UInt32,n.toNat≤2^24 →
      ((((SendWindow.run ls).ctx.nextWr n).2.isSome →
        outstandingPsns (SendWindow.run ls)+n.toNat ≤ maxPsnWindow ∧
        outstandingWrs (SendWindow.run ls) < maxSendWr) ↔
          Fits (SendWindow.run ls) (.nextWr n)) ∧
      (((SendWindow.run ls).ctx.nextWr n).2=none →
        ((SendWindow.run ls).ctx.nextWr n).1=(SendWindow.run ls).ctx) := by
  have h := Run.run_inv SendWindow.step Fits SendWindow.Inv SendWindow.step_inv {} ls hls
    SendWindow.init_inv
  refine ⟨uses_disjoint _ h,msn_nodup _ h,fun n hn => ⟨?_,?_⟩⟩
  · exact sound_iff_fits _ h n hn
  · exact SendQueueContext.nextWr_none _ n

namespace SendWindow

/-- Three requests; the first is acknowledged before the last is posted. -/
def threeRequests : List Label := [.nextWr 3,.nextWr 0x7FFFFD,.ackPsn 3,.ackMsn 0,.nextWr 2]

end SendWindow

open SendWindow in
theorem send_window_sound_three :
    (SendWindow.run threeRequests).requests=
      [⟨0,⟨0⟩,3,0⟩,⟨1,⟨3⟩,0x7FFFFD,3⟩,⟨2,⟨0x800000⟩,2,0x800000⟩] ∧
    (((SendWindow.run threeRequests).requests.drop
      (SendWindow.run threeRequests).ackedWrs).map Request.msn).Nodup ∧
    (((SendWindow.run threeRequests).ctx.nextWr 2).2=none →
      ((SendWindow.run threeRequests).ctx.nextWr 2).1=(SendWindow.run threeRequests).ctx) :=
  have h := send_window_sound threeRequests (by decide)
  ⟨by decide,h.2.1,(h.2.2 2 (by decide)).2⟩

open SendWindow in
/-- A request of `2^24` PSNs, as 4 GiB at an MTU of 256 are, passes the check of an empty window;
the next request is given the same PSN. -/
theorem whole_psn_space_accepted :
    numPsn 1 0 0xFFFFFFFF=some 0x1000000 ∧
    (SendWindow.run [.nextWr 0x1000000,.nextWr 1]).requests=
      [⟨0,⟨0⟩,0x1000000,0⟩,⟨1,⟨0⟩,1,0x1000000⟩] ∧
    (SendWindow.run [.nextWr 0x1000000,.nextWr 1]).acked=0 ∧
    ¬outstandingPsns {}+(0x1000000 : UInt32).toNat ≤ maxPsnWindow := by
  decide

end BlueRdma
