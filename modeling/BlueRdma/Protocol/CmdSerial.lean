import BlueRdma.Framework.Progress
import BlueRdma.Protocol.CmdRing

namespace BlueRdma
namespace CmdSystem

/-- One command at a time and none lost: no push is refused, the device executes the commands
posted, in their order, calls return in the order they got the lock, each with its command executed
and before the next one is posted, and between two calls each call has taken one response. -/
structure Serial (s : CmdSystem) : Prop where
  results : ∀ ok∈s.results,ok=true
  own : ∀ x∈s.posted,s.calls[x.1]?=some x.2
  executed : s.executed<+:s.commands
  returned : s.returned<+:s.posted.map Prod.fst
  after : s.returned.length ≤ s.executed.length
  before : s.posted.length ≤ s.returned.length+1
  responses_le : s.responses ≤ s.returned.length+1
  responses : s.phase=.idle → s.responses=s.returned.length

namespace Inv
variable {s : CmdSystem} {low told : Nat}

theorem length_posted (h : Inv s low told) :
    s.posted.length=s.returned.length+if s.phase=.idle then 0 else 1 := by
  have hlength := congrArg List.length h.calls
  rw [List.length_map,List.length_append,pending] at hlength
  split_ifs at hlength ⊢ <;> exact hlength

theorem num_idle (h : Inv s low told) (hidle : s.phase=.idle) : s.qp.num.toNat=0 := by
  have howes := h.owes
  rw [hidle] at howes
  rw [show s.qp.num=0 from howes,UInt64.toNat_zero]

theorem serial (h : Inv s low told) : Serial s := by
  have hlength := h.length_posted
  have hnum := h.num
  have hone := h.num_le
  have hresp := h.responses_le
  have hanswered := h.answered_executed
  have hexecuted : s.executed.length=s.device.executed := by
    rw [CmdSystem.executed,List.length_take,Nat.min_eq_left h.executed_le]
  refine ⟨h.results,h.own,(List.take_prefix ..).trans h.fetched,?_,?_,?_,?_,?_⟩
  · rw [h.calls]
    exact List.prefix_append ..
  · rw [hexecuted]
    split_ifs at hlength with hidle
    · have hzero := h.num_idle hidle
      omega
    · omega
  · split_ifs at hlength <;> omega
  · split_ifs at hlength <;> omega
  · intro hidle
    have hzero := h.num_idle hidle
    rw [if_pos hidle] at hlength
    omega

end Inv

/-- The steps the call itself has in front of it. -/
def remaining (s : CmdSystem) : Nat :=
  match s.phase with
  | .pushed => 6
  | .told => 5
  | .waiting => if s.qp.num=0 then 1 else 4
  | .popped => 3
  | .freed => 2
  | .idle => 0

/-- What the device has to do for `n` commands. -/
def work (d : CmdDevice) (n : Nat) : Nat :=
  (n-d.fetched.length)+(n-d.executed)+(n-d.passed)+(n-d.answered)

/-- What the call and the device have to do until the call returns. -/
def rank (s : CmdSystem) : Nat := s.remaining+work s.device s.posted.length

/-- The steps that bring the call on: while it waits those of the device, one after the other. -/
def Helps (s : CmdSystem) (l : CmdStep) : Prop :=
  if s.phase=.waiting ∧ s.qp.num≠0 then
    if s.device.fetched.length < s.posted.length then l=.fetch
    else if s.device.executed < s.posted.length then l=.execute
    else if s.device.passed < s.posted.length then l=.pass
    else if s.device.answered < s.posted.length then
      ∃ resp,DescRingBuffer.isValid resp=true ∧ l=.answer resp
    else l=.next
  else l=.next

/-- A step either ends the call, brings it on, or leaves the helpful steps what they are. -/
def Advances (s : CmdSystem) (l : CmdStep) : Prop :=
  (s.step l).phase=.idle ∨ rank (s.step l) < rank s ∨
    ¬Helps s l ∧ rank (s.step l)=rank s ∧ ∀ m,Helps s m → Helps (s.step l) m

theorem Advances.of_stay (s : CmdSystem) (l : CmdStep) (hstay : s.step l=s) (hnot : ¬Helps s l) :
    Advances s l := by
  refine Or.inr (Or.inr ⟨hnot,?_⟩)
  rw [hstay]
  exact ⟨rfl,fun _ hm => hm⟩

theorem Advances.of_less (s s' : CmdSystem) (l : CmdStep) (hstep : s.step l=s')
    (hposted : s'.posted=s.posted) (hlt : s'.remaining+work s'.device s.posted.length<
      s.remaining+work s.device s.posted.length) : Advances s l := by
  refine Or.inr (Or.inl ?_)
  rw [hstep,rank,rank,hposted]
  exact hlt

theorem not_helps_call (s : CmdSystem) (c : CmdCall) : ¬Helps s (.call c) := by
  rw [Helps]
  split_ifs <;> simp

theorem not_helps_lock (s : CmdSystem) (j : Nat) : ¬Helps s (.lock j) := by
  rw [Helps]
  split_ifs <;> simp

theorem advances_call (s : CmdSystem) (c : CmdCall) : Advances s (.call c) := by
  refine Or.inr (Or.inr ⟨not_helps_call s c,?_⟩)
  simp only [step]
  cases c.desc with
  | none => exact ⟨rfl,fun _ hm => hm⟩
  | some desc => exact ⟨rfl,fun _ hm => hm⟩

theorem advances_lock (s : CmdSystem) (j : Nat) (hbusy : s.phase≠.idle) : Advances s (.lock j) := by
  refine Advances.of_stay s _ ?_ (not_helps_lock s j)
  simp only [step]
  cases s.calls[j]? with
  | none => rfl
  | some desc => exact if_neg fun h => hbusy h.1

namespace Inv
variable {s : CmdSystem} {low told : Nat}

theorem fetched_posted (h : Inv s low told) : s.device.fetched.length ≤ s.posted.length := by
  rw [← length_commands]
  exact h.fetched_le.trans h.ring.told_le

/-- While a call waits, the device has been told of its command. -/
theorem told_waiting (h : Inv s low told) (hphase : s.phase=.waiting) : told=s.posted.length :=
  (h.at_phase .waiting hphase).1

theorem helps_waiting (l : CmdStep) (hl : l≠.next) (hhelps : Helps s l) : s.phase=.waiting := by
  by_contra hphase
  rw [Helps,if_neg fun h => hphase h.1] at hhelps
  exact hl hhelps

theorem advances_fetch (h : Inv s low told) : Advances s .fetch := by
  have htold := h.ring.told_le
  have hle := h.fetched_le
  rw [length_commands] at htold
  by_cases hall : s.device.fetched.length=told
  · refine Advances.of_stay s _ (if_pos (h.reqHead_eq_iff.mpr hall)) fun hhelps => ?_
    have hwaiting := h.told_waiting (helps_waiting .fetch (by simp) hhelps)
    rw [Helps] at hhelps
    split_ifs at hhelps with hw hlt
    all_goals first
      | omega
      | simp at hhelps
  · refine Advances.of_less s _ .fetch (if_neg fun heq => hall (h.reqHead_eq_iff.mp heq)) rfl ?_
    refine Nat.add_lt_add_left ?_ _
    rw [work,work,List.length_append,List.length_singleton]
    dsimp only
    omega

theorem advances_execute (h : Inv s low told) : Advances s .execute := by
  have hle := h.fetched_posted
  by_cases hlt : s.device.executed < s.device.fetched.length
  · refine Advances.of_less s _ .execute (if_pos hlt) rfl ?_
    refine Nat.add_lt_add_left ?_ _
    rw [work,work]
    dsimp only
    omega
  · refine Advances.of_stay s _ (if_neg hlt) fun hhelps => ?_
    rw [Helps] at hhelps
    split_ifs at hhelps
    all_goals first
      | omega
      | simp at hhelps

theorem advances_pass (h : Inv s low told) : Advances s .pass := by
  have hle := h.fetched_posted
  by_cases hlt : s.device.passed < s.device.fetched.length
  · refine Advances.of_less s _ .pass (if_pos hlt) rfl ?_
    refine Nat.add_lt_add_left ?_ _
    rw [work,work]
    dsimp only
    omega
  · refine Advances.of_stay s _ (if_neg hlt) fun hhelps => ?_
    rw [Helps] at hhelps
    split_ifs at hhelps
    all_goals first
      | omega
      | simp at hhelps

theorem advances_answer (h : Inv s low told) (resp : DescBytes) : Advances s (.answer resp) := by
  have hle := h.fetched_posted
  have hpassed := h.passed_le
  by_cases hlt : s.device.answered < s.device.executed ∧ s.device.answered < s.device.passed ∧
      DescRingBuffer.isValid resp=true
  · refine Advances.of_less s _ (.answer resp) (if_pos hlt) rfl ?_
    refine Nat.add_lt_add_left ?_ _
    rw [work,work]
    dsimp only
    omega
  · refine Advances.of_stay s _ (if_neg hlt) fun hhelps => ?_
    rw [Helps] at hhelps
    split_ifs at hhelps
    case pos =>
      obtain ⟨resp',hvalid,heq⟩ := hhelps
      obtain rfl := CmdStep.answer.inj heq
      exact hlt ⟨by omega,by omega,hvalid⟩

/-- A step of the call brings it on unless it waits for a response that is not there. -/
theorem advances_next (h : Inv s low told) (hbusy : s.phase≠.idle) : Advances s .next := by
  obtain ⟨phase,hphase⟩ : ∃ phase,s.phase=phase := ⟨_,rfl⟩
  have hless (s' : CmdSystem) (hstep : s.next=s') (hposted : s'.posted=s.posted)
      (hdevice : s'.device=s.device) (hlt : s'.remaining < s.remaining) : Advances s .next := by
    refine Advances.of_less s s' .next hstep hposted ?_
    rw [hdevice]
    exact Nat.add_lt_add_right hlt _
  cases phase with
  | idle => exact absurd hphase hbusy
  | pushed =>
      refine hless _ (next_eq_pushed s hphase) rfl rfl ?_
      rw [remaining,remaining,hphase]
      exact Nat.lt_succ_self 5
  | told =>
      refine hless _ (next_eq_told s hphase) rfl rfl ?_
      rw [remaining,remaining,hphase]
      dsimp only
      split_ifs <;> omega
  | waiting =>
      have hnext := next_eq_waiting s hphase
      by_cases hnum : s.qp.num=0
      · refine Or.inl ?_
        change s.next.phase=_
        rw [hnext,poll,if_pos hnum]
      rcases h.responses_le.eq_or_lt with hnone|hsome
      · have hcount := h.num
        have howes := (h.at_phase .waiting hphase).2.2.2
        rw [howes.resolve_left hnum,UInt64.toNat_one] at hcount
        refine Advances.of_stay s _ (hnext.trans (h.poll_empty hnum hnone)) fun hhelps => ?_
        rw [Helps,if_pos ⟨hphase,hnum⟩] at hhelps
        split_ifs at hhelps
        case neg => omega
        all_goals simp at hhelps
      · obtain ⟨-,hpopped,hposted,hdevice⟩ := h.poll_response hphase hnum hsome
        refine hless _ hnext hposted hdevice ?_
        rw [remaining,remaining,hpopped,hphase]
        dsimp only
        rw [if_neg hnum]
        omega
  | popped =>
      refine hless _ (next_eq_popped s hphase) rfl rfl ?_
      rw [remaining,remaining,hphase]
      exact Nat.lt_succ_self 2
  | freed =>
      have hnum : s.qp.num=0 := (h.at_phase .freed hphase).2.2.2
      refine hless _ (next_eq_freed s hphase) rfl rfl ?_
      rw [remaining,remaining,hphase]
      change (if s.qp.num=0 then 1 else 4)<2
      rw [if_pos hnum]
      omega

theorem advances (h : Inv s low told) (hbusy : s.phase≠.idle) (l : CmdStep) : Advances s l := by
  cases l with
  | call c => exact advances_call s c
  | lock j => exact advances_lock s j hbusy
  | next => exact h.advances_next hbusy
  | fetch => exact h.advances_fetch
  | execute => exact h.advances_execute
  | pass => exact h.advances_pass
  | answer resp => exact h.advances_answer resp

end Inv

/-- The states of a schedule. -/
abbrev states (ls : Nat → CmdStep) : Nat → CmdSystem := Run.trace step init ls

/-- The call that holds the lock keeps running, the device reads, executes and answers what it is
told of however late, and a call that waits for a lock that is free again and again gets it. -/
structure Fair (ls : Nat → CmdStep) : Prop where
  next : ∀ n,∃ m,n ≤ m ∧ ls m=.next
  fetch : ∀ n,∃ m,n ≤ m ∧ ls m=.fetch
  execute : ∀ n,∃ m,n ≤ m ∧ ls m=.execute
  pass : ∀ n,∃ m,n ≤ m ∧ ls m=.pass
  answer : ∀ n,∃ m,n ≤ m ∧ ∃ resp,DescRingBuffer.isValid resp=true ∧ ls m=.answer resp
  lock : (∀ n,∃ m,n ≤ m ∧ (states ls m).phase=.idle) →
    ∀ n j,j<(states ls n).calls.length → ∃ m,n ≤ m ∧ j∈(states ls m).posted.map Prod.fst

section Schedule
variable (ls : Nat → CmdStep)

theorem states_inv (n : Nat) : ∃ low told,Inv (states ls n) low told :=
  Run.trace_inv step (fun s => ∃ low told,Inv s low told) init ls (fun n _ => step_inv _ (ls n))
    ⟨0,0,init_inv⟩ n

/-- A helpful step is taken some time. -/
theorem Fair.helps (hfair : Fair ls) (s : CmdSystem) (n : Nat) : ∃ m,n ≤ m ∧ Helps s (ls m) := by
  simp only [Helps]
  split_ifs
  · exact hfair.fetch n
  · exact hfair.execute n
  · exact hfair.pass n
  · exact hfair.answer n
  · exact hfair.next n
  · exact hfair.next n

/-- The lock is free again and again. -/
theorem Fair.idle (hfair : Fair ls) (n : Nat) : ∃ m,n ≤ m ∧ (states ls m).phase=.idle :=
  Run.eventually_of_rank step (·.phase=.idle) rank Helps init ls
    (fun n hbusy => let ⟨_,_,h⟩ := states_inv ls n; h.advances hbusy (ls n))
    (fun n _ => hfair.helps ls (states ls n) n) n

theorem next_records (s : CmdSystem) : s.next.calls=s.calls ∧ s.next.posted=s.posted := by
  rw [next]
  split
  case h_4 =>
    rw [poll]
    split_ifs
    · exact ⟨rfl,rfl⟩
    · split <;> exact ⟨rfl,rfl⟩
  all_goals exact ⟨rfl,rfl⟩

/-- The steps that change `calls` or `posted`. -/
def recorded : CmdStep → Bool
  | .call _ | .lock _ => true
  | _ => false

theorem step_records (s : CmdSystem) (l : CmdStep) (hl : recorded l=false) :
    (s.step l).calls=s.calls ∧ (s.step l).posted=s.posted := by
  cases l with
  | call c => cases hl
  | lock j => cases hl
  | next => exact next_records s
  | fetch | execute | pass | answer resp =>
      simp only [step]
      split_ifs <;> exact ⟨rfl,rfl⟩

theorem posted_step (s : CmdSystem) (l : CmdStep) : s.posted<+:(s.step l).posted := by
  cases l with
  | call c =>
      simp only [step]
      split <;> exact List.prefix_refl _
  | lock j =>
      simp only [step]
      split
      · exact List.prefix_refl _
      · split_ifs
        · exact List.prefix_append ..
        · exact List.prefix_refl _
  | next | fetch | execute | pass | answer resp =>
      rw [(step_records s _ rfl).2]

/-- A call that gets the lock returns. -/
theorem Fair.returns (hfair : Fair ls) (n j : Nat) (hj : j∈(states ls n).posted.map Prod.fst) :
    ∃ m,n ≤ m ∧ j∈(states ls m).returned := by
  obtain ⟨m,hm,hidle⟩ := hfair.idle ls n
  obtain ⟨low,told,h⟩ := states_inv ls m
  have hcalls := h.calls
  rw [pending,if_pos hidle,List.append_nil] at hcalls
  refine ⟨m,hm,?_⟩
  rw [← hcalls]
  exact ((Run.trace_grows step posted posted_step init ls n m hm).map Prod.fst).subset hj

/-- Commands are executed one at a time and none is lost, and on a fair schedule every call
returns. -/
theorem commands_serial (ls : Nat → CmdStep) : (∀ n,Serial (states ls n)) ∧
    (Fair ls → ∀ n j,j<(states ls n).calls.length → ∃ m,n ≤ m ∧ j∈(states ls m).returned) := by
  constructor
  · intro n
    obtain ⟨low,told,h⟩ := states_inv ls n
    exact h.serial
  · intro hfair n j hj
    obtain ⟨m,hm,hposted⟩ := hfair.lock (hfair.idle ls) n j hj
    obtain ⟨k,hk,hreturned⟩ := hfair.returns ls m j hposted
    exact ⟨k,hm.trans hk,hreturned⟩

end Schedule

/-- A call gets the lock and a second one waits for it; then calls and device in turn. -/
def twoCalls (n : Nat) : CmdStep :=
  if n=0 then .call (.setRawPacketRecvBuffer ⟨0x1000⟩)
  else if n=1 then .lock 0
  else if n=2 then .call (.setRawPacketRecvBuffer ⟨0x2000⟩)
  else if n%6=0 then .next
  else if n%6=1 then .fetch
  else if n%6=2 then .execute
  else if n%6=3 then .lock 1
  else if n%6=4 then .pass
  else .answer (DescRingBuffer.lastByte 0x80)

theorem step_keeps_calls (s : CmdSystem) (l : CmdStep) (hl : ∀ c,l≠.call c) :
    (s.step l).calls=s.calls := by
  cases l with
  | call c => exact absurd rfl (hl c)
  | lock j =>
      simp only [step]
      split
      · rfl
      · split_ifs <;> rfl
  | next | fetch | execute | pass | answer resp => exact (step_records s _ rfl).1

theorem twoCalls_calls (n : Nat) : (states twoCalls (n+3)).calls.length=2 := by
  induction n with
  | zero => rfl
  | succ n ih =>
      change (step (states twoCalls (n+3)) (twoCalls (n+3))).calls.length=2
      rw [step_keeps_calls,ih]
      intro c
      rw [twoCalls,if_neg (by omega),if_neg (by omega),if_neg (by omega)]
      split_ifs <;> simp

/-- The second call gets the lock when the first one has returned. -/
theorem twoCalls_posted (n j : Nat) (hj : j<2) :
    j∈(states twoCalls (n+60)).posted.map Prod.fst := by
  have hboth : ∀ j<2,j∈(states twoCalls 60).posted.map Prod.fst := by decide +kernel
  exact ((Run.trace_grows step posted posted_step init twoCalls 60 (n+60) (by omega)).map
    Prod.fst).subset (hboth j hj)

theorem fair_twoCalls : Fair twoCalls := by
  have hturn (k : Nat) (hk : k<6) (l : CmdStep) (hl : ∀ m,3 ≤ m → m%6=k → twoCalls m=l) (n : Nat) :
      ∃ m,n ≤ m ∧ twoCalls m=l := by
    exact ⟨6*(n+1)+k,by omega,hl _ (by omega) (by omega)⟩
  have hlate (m : Nat) (hm : 3 ≤ m) : m≠0 ∧ m≠1 ∧ m≠2 := by omega
  refine ⟨hturn 0 (by decide) _ ?_,hturn 1 (by decide) _ ?_,hturn 2 (by decide) _ ?_,
    hturn 4 (by decide) _ ?_,?_,?_⟩
  · intro m hm hk
    simp [twoCalls,hlate m hm,hk]
  · intro m hm hk
    simp [twoCalls,hlate m hm,hk]
  · intro m hm hk
    simp [twoCalls,hlate m hm,hk]
  · intro m hm hk
    simp [twoCalls,hlate m hm,hk]
  · intro n
    obtain ⟨m,hm,hl⟩ := hturn 5 (by decide) (.answer (DescRingBuffer.lastByte 0x80)) (by
      intro m hm hk
      simp [twoCalls,hlate m hm,hk]) n
    exact ⟨m,hm,_,by decide,hl⟩
  · intro _ n j hj
    refine ⟨n+60,by omega,twoCalls_posted n j ?_⟩
    rcases n with _|_|_|n
    · cases hj
    · exact Nat.lt_succ_of_lt hj
    · exact Nat.lt_succ_of_lt hj
    · rwa [twoCalls_calls] at hj

theorem commands_serial_twoCalls :
    Fair twoCalls ∧ (states twoCalls 4).calls.length=2 ∧
      (states twoCalls 4).posted.map Prod.fst=[0] ∧ (states twoCalls 4).returned=[] ∧
      ∃ m,4 ≤ m ∧ 1∈(states twoCalls m).returned :=
  ⟨fair_twoCalls,rfl,rfl,rfl,(commands_serial twoCalls).2 fair_twoCalls 4 1 (by decide)⟩

end CmdSystem
end BlueRdma
