import BlueRdma.Cmd.CmdQueue
import BlueRdma.RingBuf.Filled
import BlueRdma.RingBuf.Sync

namespace BlueRdma
open DmaRingBuf

/-- Where the call stands that holds the lock. -/
inductive CmdPhase
  /-- Nobody holds the lock. -/
  | idle
  /-- In `flush`, in front of the write of the head register. -/
  | pushed
  /-- In `flush`, in front of the read of the tail register. -/
  | told
  /-- At the top of the loop of `wait`. -/
  | waiting
  /-- In the loop, in front of the write of the tail register. -/
  | popped
  /-- In the loop, in front of the read of the head register. -/
  | freed
  deriving DecidableEq

/-- The device's side: the commands it has read, and how many of them it has executed, has moved
its tail past and has answered. -/
structure CmdDevice where
  fetched : List DescBytes := []
  executed : Nat := 0
  passed : Nat := 0
  answered : Nat := 0

/-- The queue pair, the registers of both rings and the device. The fields from `calls` on record
the calls made, those that got the lock, the ignored results of `push`, the number of responses
taken and the calls that returned. -/
structure CmdSystem where
  qp : QpUpdate
  phase : CmdPhase := .idle
  holder : Nat := 0
  reqHead : UInt32 := 0
  reqTail : UInt32 := 0
  respHead : UInt32 := 0
  respTail : UInt32 := 0
  device : CmdDevice := {}
  calls : List DescWords := []
  posted : List (Nat × DescWords) := []
  results : List Bool := []
  responses : Nat := 0
  returned : List Nat := []

inductive CmdStep
  /-- A thread makes a call, builds its descriptor and from then on waits for the lock. -/
  | call (c : CmdCall)
  /-- The call gets the lock and pushes its command. -/
  | lock (j : Nat)
  /-- The call that holds the lock goes on. -/
  | next
  /-- The device reads the next command. -/
  | fetch
  | execute
  /-- The device moves its tail register past one more command. -/
  | pass
  /-- The device writes a response for the next command. -/
  | answer (resp : DescBytes)

namespace CmdSystem

/-- Zero-initialised rings and registers. -/
def init : CmdSystem where
  qp := ⟨0,⟨.zeroed⟩,⟨.zeroed⟩⟩

def reqRing (s : CmdSystem) : DmaRingBuf DescBytes := s.qp.reqQueue.inner.ring

def respRing (s : CmdSystem) : DmaRingBuf DescBytes := s.qp.respQueue.inner.ring

/-- The commands in the order they were posted. -/
def commands (s : CmdSystem) : List DescBytes := s.posted.map (·.2.toBytes)

/-- The commands executed, in order. -/
def executed (s : CmdSystem) : List DescBytes := s.device.fetched.take s.device.executed

/-- The call at the top of its loop. -/
def poll (s : CmdSystem) : CmdSystem :=
  if s.qp.num=0 then {s with phase := .idle,returned := s.returned++[s.holder]}
  else match s.qp.tryPop with
    | (qp,none) => {s with qp := qp}
    | (qp,some _) => {s with qp := qp,phase := .popped,responses := s.responses+1}

def next (s : CmdSystem) : CmdSystem :=
  match s.phase with
  | .idle => s
  | .pushed => {s with reqHead := s.qp.reqQueue.head,phase := .told}
  | .told => {s with qp := s.qp.readTail (some s.reqTail),phase := .waiting}
  | .waiting => s.poll
  | .popped => {s with respTail := s.qp.respQueue.tail,phase := .freed}
  | .freed => {s with qp := s.qp.readHead (some s.respHead),phase := .waiting}

section Next
variable (s : CmdSystem)

theorem next_eq_pushed (h : s.phase=.pushed) :
    s.next={s with reqHead := s.qp.reqQueue.head,phase := .told} := by rw [next,h]

theorem next_eq_told (h : s.phase=.told) :
    s.next={s with qp := s.qp.readTail (some s.reqTail),phase := .waiting} := by rw [next,h]

theorem next_eq_waiting (h : s.phase=.waiting) : s.next=s.poll := by rw [next,h]

theorem next_eq_popped (h : s.phase=.popped) :
    s.next={s with respTail := s.qp.respQueue.tail,phase := .freed} := by rw [next,h]

theorem next_eq_freed (h : s.phase=.freed) :
    s.next={s with qp := s.qp.readHead (some s.respHead),phase := .waiting} := by rw [next,h]

end Next

/-- The response goes to the slot behind the last one written. -/
def writeResp (u : QpUpdate) (k : Nat) (resp : DescBytes) : QpUpdate :=
  {u with respQueue := ⟨⟨u.respQueue.inner.ring.write (k%4096) resp⟩⟩}

/-- A step that is not enabled leaves the state alone. The device compares its position with the
head register, moves its tail past commands it has read, and answers commands it has executed and
moved its tail past. -/
def step (s : CmdSystem) : CmdStep → CmdSystem
  | .call c => match c.desc with
    | some desc => {s with calls := s.calls++[desc]}
    | none => s
  | .lock j => match s.calls[j]? with
    | none => s
    | some desc =>
      if s.phase=.idle ∧ j∉s.posted.map Prod.fst then
        {s with
          qp := (s.qp.update.push desc).1
          phase := .pushed
          holder := j
          posted := s.posted++[(j,desc)]
          results := s.results++[(s.qp.update.push desc).2]}
      else s
  | .next => s.next
  | .fetch =>
    if s.reqHead.toNat=s.device.fetched.length%8192 then s
    else {s with device := {s.device with
      fetched := s.device.fetched++[s.reqRing.slots (s.device.fetched.length%4096)]}}
  | .execute =>
    if s.device.executed < s.device.fetched.length then
      {s with device := {s.device with executed := s.device.executed+1}}
    else s
  | .pass =>
    if s.device.passed < s.device.fetched.length then
      {s with
        reqTail := UInt32.ofNat ((s.reqTail.toNat+1)%8192)
        device := {s.device with passed := s.device.passed+1}}
    else s
  | .answer resp =>
    if s.device.answered < s.device.executed ∧ s.device.answered < s.device.passed ∧
        DescRingBuffer.isValid resp=true then
      {s with
        qp := writeResp s.qp s.device.answered resp
        respHead := UInt32.ofNat ((s.respHead.toNat+1)%8192)
        device := {s.device with answered := s.device.answered+1}}
    else s

/-- How many responses the call in this phase waits for; it may have got its own when it is back
at the top of the loop. -/
def Owes : CmdPhase → UInt64 → Prop
  | .pushed,num | .told,num => num=1
  | .waiting,num => num=0 ∨ num=1
  | _,num => num=0

/-- How many commands the driver's copy of the tail may lag behind. -/
def slack : CmdPhase → Nat
  | .pushed | .told => 2
  | _ => 1

/-- The calls posted and not yet returned. -/
def pending (s : CmdSystem) : List Nat := if s.phase=.idle then [] else [s.holder]

/-- What holds in every state; `low` and `told` count the commands behind the driver's copy of the
tail and the device's copy of the head. -/
structure Inv (s : CmdSystem) (low told : Nat) : Prop where
  ring : Synced s.reqRing s.reqHead s.reqTail s.commands s.device.passed low told
  fetched : s.device.fetched<+:s.commands
  fetched_le : s.device.fetched.length ≤ told
  executed_le : s.device.executed ≤ s.device.fetched.length
  passed_le : s.device.passed ≤ s.device.fetched.length
  answered_executed : s.device.answered ≤ s.device.executed
  answered_passed : s.device.answered ≤ s.device.passed
  told_eq : told+(if s.phase=.pushed then 1 else 0)=s.posted.length
  low_ge : s.posted.length ≤ low+slack s.phase
  calls : s.posted.map Prod.fst=s.returned++s.pending
  num : s.qp.num.toNat+s.responses=s.posted.length
  owes : Owes s.phase s.qp.num
  resp : ∃ l,Filled s.respRing l ∧ (∀ d∈l,DescRingBuffer.isValid d=true) ∧
    s.responses+l.length=s.device.answered
  respTail : s.respRing.tail.toNat=s.responses%8192
  results : ∀ ok∈s.results,ok=true
  own : ∀ x∈s.posted,s.calls[x.1]?=some x.2

theorem init_inv : Inv init 0 0 where
  ring := new_synced _
  fetched := List.nil_prefix
  fetched_le := le_rfl
  executed_le := le_rfl
  passed_le := le_rfl
  answered_executed := le_rfl
  answered_passed := le_rfl
  told_eq := rfl
  low_ge := Nat.zero_le _
  calls := rfl
  num := rfl
  owes := rfl
  resp := ⟨[],new_filled,fun d hd => (by cases hd),rfl⟩
  respTail := rfl
  results := fun ok hok => by cases hok
  own := fun x hx => by cases hx

namespace Inv
variable {s : CmdSystem} {low told : Nat}

theorem length_commands (s : CmdSystem) : s.commands.length=s.posted.length := List.length_map ..

/-- The call that holds the lock owes one response at most. -/
theorem num_le (h : Inv s low told) : s.qp.num.toNat ≤ 1 := by
  have howes := h.owes
  revert howes
  cases s.phase <;> simp only [Owes]
  case waiting => rintro (h|h) <;> simp [h]
  all_goals (intro h; simp [h])

/-- What the phase says about the counters. -/
theorem at_phase (h : Inv s low told) (phase : CmdPhase) (hphase : s.phase=phase) :
    told+(if phase=.pushed then 1 else 0)=s.posted.length ∧ s.posted.length ≤ low+slack phase ∧
      s.posted.map Prod.fst=s.returned++(if phase=.idle then [] else [s.holder]) ∧
      Owes phase s.qp.num := by
  subst hphase
  exact ⟨h.told_eq,h.low_ge,h.calls,h.owes⟩

theorem call (h : Inv s low told) (c : CmdCall) : Inv (s.step (.call c)) low told := by
  simp only [step]
  cases c.desc with
  | none => exact h
  | some desc =>
      refine {h with own := fun x hx => ?_}
      have hown := h.own x hx
      change (s.calls++[desc])[x.1]?=_
      rwa [List.getElem?_append_left (List.getElem?_eq_some_iff.mp hown).1]

/-- Getting the lock: the ring has room, as the copy of the tail is one command behind at most. -/
theorem lock (h : Inv s low told) (j : Nat) : Inv (s.step (.lock j)) low told := by
  simp only [step]
  cases hj : s.calls[j]? with
  | none => exact h
  | some desc =>
      dsimp only
      split_ifs with hfree
      · obtain ⟨hidle,hnew⟩ := hfree
        obtain ⟨htold,hlow,hcalls,howes⟩ := h.at_phase .idle hidle
        have hnum := h.num
        rw [if_pos rfl,List.append_nil] at hcalls
        have hroom : s.reqRing.len < ringBufLen := by
          rw [h.ring.len_eq,length_commands]
          change _<4096
          change _≤low+1 at hlow
          omega
        obtain ⟨hok,hpush⟩ := h.ring.push hroom desc.toBytes
        have hlength : (s.posted++[(j,desc)]).length=s.posted.length+1 := List.length_append
        refine {h with
          ring := ?_
          fetched := ?_
          told_eq := ?_
          low_ge := ?_
          calls := ?_
          num := ?_
          owes := rfl
          results := ?_
          own := ?_}
        · change Synced (s.reqRing.push desc.toBytes).1 _ _ ((s.posted++[(j,desc)]).map _) _ _ _
          rw [List.map_append]
          exact hpush
        · change _<+:(s.posted++[(j,desc)]).map _
          rw [List.map_append]
          exact h.fetched.trans (List.prefix_append ..)
        · change told+1=_
          rw [hlength,← htold]
          rfl
        · change _≤low+2
          rw [hlength]
          exact Nat.succ_le_succ hlow
        · change (s.posted++[(j,desc)]).map Prod.fst=s.returned++[j]
          rw [List.map_append,hcalls]
          rfl
        · change 1+s.responses=_
          rw [hlength,← hnum,show s.qp.num=0 from howes]
          exact Nat.add_comm 1 _ |>.trans (by rw [UInt64.toNat_zero,Nat.zero_add])
        · intro ok hin
          rcases List.mem_append.mp hin with hin|hin
          · exact h.results ok hin
          · rw [List.mem_singleton.mp hin]
            exact hok
        · intro x hx
          rcases List.mem_append.mp hx with hx|hx
          · exact h.own x hx
          · rw [List.mem_singleton.mp hx]
            exact hj
      · exact h

/-- The head register is written. -/
theorem next_pushed (h : Inv s low told) (hphase : s.phase=.pushed) :
    Inv s.next low s.posted.length := by
  obtain ⟨htold,hlow,hcalls,howes⟩ := h.at_phase .pushed hphase
  have hring := h.ring.writeHead
  rw [length_commands] at hring
  rw [next_eq_pushed s hphase]
  have hle : told ≤ s.posted.length := by omega
  exact {h with
    ring := hring
    fetched_le := h.fetched_le.trans hle
    told_eq := rfl
    low_ge := hlow
    calls := hcalls
    owes := howes}

/-- The tail register is read: the device has moved past every command answered, and those are all
but the one just posted. -/
theorem next_told (h : Inv s low told) (hphase : s.phase=.told) :
    Inv s.next s.device.passed told := by
  obtain ⟨htold,hlow,hcalls,howes⟩ := h.at_phase .told hphase
  have hnum := h.num
  obtain ⟨l,-,-,hl⟩ := h.resp
  have hpassed := h.answered_passed
  have hone : s.qp.num=1 := howes
  rw [hone,UInt64.toNat_one] at hnum
  have hlow' : s.posted.length ≤ s.device.passed+1 := by omega
  rw [next_eq_told s hphase]
  exact {h with
    ring := h.ring.readTail
    told_eq := htold
    low_ge := hlow'
    calls := hcalls
    owes := Or.inr howes}

/-- The call has its response and returns. -/
theorem poll_done (h : Inv s low told) (hphase : s.phase=.waiting) (hnum : s.qp.num=0) :
    Inv s.poll low told := by
  obtain ⟨htold,hlow,hcalls,-⟩ := h.at_phase .waiting hphase
  rw [poll,if_pos hnum]
  exact {h with
    told_eq := htold
    low_ge := hlow
    calls := hcalls.trans (List.append_nil _).symm
    owes := hnum}

/-- No response so far. -/
theorem poll_empty (h : Inv s low told) (hnum : s.qp.num≠0)
    (hnone : s.responses=s.device.answered) : s.poll=s := by
  obtain ⟨l,hfilled,hvalid,hl⟩ := h.resp
  obtain rfl : l=[] := List.length_eq_zero_iff.mp (by omega)
  obtain ⟨-,-,hempty⟩ := hfilled.pop_filled DescRingBuffer.zeroed_invalid hvalid
  have hpop : s.qp.respQueue.tryPop=(s.qp.respQueue,none) := by
    change (CmdRespQueue.mk ⟨(s.respRing.pop DescRingBuffer.isValid).1⟩,
      (s.respRing.pop DescRingBuffer.isValid).2.map id)=_
    rw [hempty rfl]
    rfl
  rw [poll,if_neg hnum,QpUpdate.tryPop,hpop]

/-- The response is taken. -/
theorem poll_response (h : Inv s low told) (hphase : s.phase=.waiting) (hnum : s.qp.num≠0)
    (hsome : s.responses < s.device.answered) :
    Inv s.poll low told ∧ s.poll.phase=.popped ∧ s.poll.posted=s.posted ∧
      s.poll.device=s.device := by
  obtain ⟨l,hfilled,hvalid,hl⟩ := h.resp
  obtain ⟨resp,rest,rfl⟩ := List.exists_cons_of_length_pos (show 0<l.length by omega)
  obtain ⟨hvalue,hnext,-⟩ := hfilled.pop_filled DescRingBuffer.zeroed_invalid hvalid
  have htail := Filled.pop_tail s.respRing DescRingBuffer.isValid (by rw [hvalue]; rfl)
  have hpoll : s.poll={s with
      qp := {s.qp with
        num := s.qp.num-1
        respQueue := ⟨⟨(s.respRing.pop DescRingBuffer.isValid).1⟩⟩}
      phase := .popped
      responses := s.responses+1} := by
    have hpop : s.qp.respQueue.tryPop=
        (⟨⟨(s.respRing.pop DescRingBuffer.isValid).1⟩⟩,some resp) := by
      change (CmdRespQueue.mk ⟨(s.respRing.pop DescRingBuffer.isValid).1⟩,
        (s.respRing.pop DescRingBuffer.isValid).2.map id)=_
      rw [hvalue]
      rfl
    rw [poll,if_neg hnum,QpUpdate.tryPop,hpop]
  obtain ⟨htold,hlow,hcalls,howes⟩ := h.at_phase .waiting hphase
  have hcount := h.num
  have hone : s.qp.num=1 := howes.resolve_left hnum
  rw [hone,UInt64.toNat_one] at hcount
  have hzero : s.qp.num-1=0 := by rw [hone]; rfl
  rw [hpoll]
  refine ⟨{h with
    told_eq := htold
    low_ge := hlow
    calls := hcalls
    num := ?_
    owes := hzero
    resp := ⟨rest,hnext,fun d hd => hvalid d (List.mem_cons_of_mem resp hd),?_⟩
    respTail := ?_},rfl,rfl,rfl⟩
  · change (s.qp.num-1).toNat+(s.responses+1)=s.posted.length
    rw [hzero,UInt64.toNat_zero]
    omega
  · change s.responses+1+rest.length=_
    rw [← hl,List.length_cons]
    omega
  · change (s.respRing.pop DescRingBuffer.isValid).1.tail.toNat=(s.responses+1)%8192
    rw [htail,h.respTail]
    omega

/-- A step inside the loop that only touches the registers of the response ring. -/
theorem next_popped (h : Inv s low told) (hphase : s.phase=.popped) : Inv s.next low told := by
  obtain ⟨htold,hlow,hcalls,howes⟩ := h.at_phase .popped hphase
  rw [next_eq_popped s hphase]
  exact {h with told_eq := htold,low_ge := hlow,calls := hcalls,owes := howes}

theorem next_freed (h : Inv s low told) (hphase : s.phase=.freed) : Inv s.next low told := by
  obtain ⟨htold,hlow,hcalls,howes⟩ := h.at_phase .freed hphase
  rw [next_eq_freed s hphase]
  exact {h with told_eq := htold,low_ge := hlow,calls := hcalls,owes := Or.inl howes}

theorem responses_le (h : Inv s low told) : s.responses ≤ s.device.answered := by
  obtain ⟨l,-,-,hl⟩ := h.resp
  omega

theorem next_inv (h : Inv s low told) : ∃ low told,Inv s.next low told := by
  obtain ⟨phase,hphase⟩ : ∃ phase,s.phase=phase := ⟨_,rfl⟩
  cases phase with
  | idle =>
      rw [next,hphase]
      exact ⟨low,told,h⟩
  | pushed => exact ⟨_,_,h.next_pushed hphase⟩
  | told => exact ⟨_,_,h.next_told hphase⟩
  | waiting =>
      rw [next_eq_waiting s hphase]
      by_cases hnum : s.qp.num=0
      · exact ⟨_,_,h.poll_done hphase hnum⟩
      rcases h.responses_le.eq_or_lt with hnone|hsome
      · rw [h.poll_empty hnum hnone]
        exact ⟨_,_,h⟩
      · exact ⟨_,_,(h.poll_response hphase hnum hsome).1⟩
  | popped => exact ⟨_,_,h.next_popped hphase⟩
  | freed => exact ⟨_,_,h.next_freed hphase⟩

/-- The head register tells whether there is a command the device has not read. -/
theorem reqHead_eq_iff (h : Inv s low told) :
    s.reqHead.toNat=s.device.fetched.length%8192 ↔ s.device.fetched.length=told := by
  have hhead := h.ring.head
  have hle := h.fetched_le
  have hpassed := h.passed_le
  have hlen := h.ring.length_le
  have htold := h.ring.told_le
  have hlow := h.ring.behind
  rw [hhead]
  constructor
  · intro heq
    omega
  · rintro rfl
    rfl

theorem fetch (h : Inv s low told) : Inv (s.step .fetch) low told := by
  simp only [step]
  split_ifs with hall
  · exact h
  rw [h.reqHead_eq_iff] at hall
  have hle := h.fetched_le
  have htold := h.ring.told_le
  have hlt : s.device.fetched.length < s.commands.length := by omega
  have hslot := h.ring.slot_eq s.device.fetched.length _ (List.getElem?_eq_getElem hlt) h.passed_le
  have hlength : (s.device.fetched++[s.commands[s.device.fetched.length]]).length=
      s.device.fetched.length+1 := List.length_append
  rw [hslot]
  refine {h with fetched := ?_,fetched_le := ?_,executed_le := ?_,passed_le := ?_}
  · change s.device.fetched++[_]<+:s.commands
    have htake := List.take_prefix (s.device.fetched.length+1) s.commands
    rwa [List.take_succ_eq_append_getElem hlt,← List.prefix_iff_eq_take.mp h.fetched] at htake
  · change (s.device.fetched++[_]).length ≤ _
    omega
  · exact (h.executed_le.trans (Nat.le_succ _)).trans_eq hlength.symm
  · exact (h.passed_le.trans (Nat.le_succ _)).trans_eq hlength.symm

theorem execute (h : Inv s low told) : Inv (s.step .execute) low told := by
  simp only [step]
  split_ifs with hlt
  · exact {h with
      executed_le := hlt
      answered_executed := h.answered_executed.trans (Nat.le_succ _)}
  · exact h

theorem pass (h : Inv s low told) : Inv (s.step .pass) low told := by
  simp only [step]
  split_ifs with hlt
  · have hle := h.fetched_le
    have hpub := h.ring.published_eq
    exact {h with
      ring := h.ring.consume 1 (by omega)
      passed_le := hlt
      answered_passed := h.answered_passed.trans (Nat.le_succ _)}
  · exact h

theorem answer (h : Inv s low told) (resp : DescBytes) : Inv (s.step (.answer resp)) low told := by
  simp only [step]
  split_ifs with hlt
  · obtain ⟨hexecuted,hpassed,hvalid⟩ := hlt
    obtain ⟨l,hfilled,hl,hlen⟩ := h.resp
    have hnum := h.num
    have hone := h.num_le
    have hfetched := h.fetched_le
    have hexec := h.executed_le
    have htold := h.told_eq
    have hroom : l.length<4096 := by omega
    have harrive := hfilled.arrive hroom resp s.responses h.respTail
    rw [hlen] at harrive
    refine {h with
      answered_executed := hexecuted
      answered_passed := hpassed
      resp := ⟨l++[resp],harrive,?_,?_⟩}
    · intro d hd
      rcases List.mem_append.mp hd with hd|hd
      · exact hl d hd
      · rw [List.mem_singleton.mp hd]
        exact hvalid
    · rw [List.length_append]
      change s.responses+(l.length+1)=s.device.answered+1
      omega
  · exact h

end Inv

theorem step_inv (s : CmdSystem) (l : CmdStep) (h : ∃ low told,Inv s low told) :
    ∃ low told,Inv (s.step l) low told := by
  obtain ⟨low,told,h⟩ := h
  cases l with
  | call c => exact ⟨_,_,h.call c⟩
  | lock j => exact ⟨_,_,h.lock j⟩
  | next => exact h.next_inv
  | fetch => exact ⟨_,_,h.fetch⟩
  | execute => exact ⟨_,_,h.execute⟩
  | pass => exact ⟨_,_,h.pass⟩
  | answer resp => exact ⟨_,_,h.answer resp⟩

end CmdSystem
end BlueRdma
