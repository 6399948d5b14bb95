import BlueRdma.Framework.Actors

namespace BlueRdma

/-- Workers joined by FIFO channels, in which each send is a step of its own: what a worker in
the middle of a turn has still to send is kept in `turn` with its next state, and the other
workers go on meanwhile. -/
@[ext] structure Threads (ι : Type) (σ : ι → Type) (M : Type) where
  state : (j : ι) → Option (σ j)
  turn : (j : ι) → Option (Outcome M (σ j)) := fun _ => none
  inbox : ι → List M := fun _ => []
  log : List M := []

/-- A message from outside, the begin of a turn, the next send of a turn or its end, or the death
of a thread for a reason outside the program. -/
inductive ThreadLabel (ι C M : Type)
  | post (m : M)
  | take (j : ι) (c : C)
  | send (j : ι)
  | crash (j : ι)

namespace Threads
variable {ι : Type} [DecidableEq ι] {σ : ι → Type} {C M : Type} (prog : Program ι σ C M)

def reaches (n : Threads ι σ M) (m : M) : Bool := (prog.dest m).all (fun j => (n.state j).isSome)

def put (n : Threads ι σ M) (m : M) : Threads ι σ M :=
  {n with
    inbox := fun j => n.inbox j++(if prog.dest m=some j then [m] else [])
    log := n.log++[m]}

/-- The begin of a turn, a send in the middle of it, and its end. -/
def takeUp (n : Threads ι σ M) (j : ι) (o : Outcome M (σ j)) (rest : List M) : Threads ι σ M :=
  {n with turn := Function.update n.turn j (some o),inbox := Function.update n.inbox j rest}

def sendNext (n : Threads ι σ M) (j : ι) (m : M) (o : Outcome M (σ j)) : Threads ι σ M :=
  {n.put prog m with turn := Function.update n.turn j (some o)}

def finish (n : Threads ι σ M) (j : ι) (next : Option (σ j)) : Threads ι σ M :=
  {n with state := Function.update n.state j next,turn := Function.update n.turn j none}

def kill (n : Threads ι σ M) (j : ι) : Threads ι σ M := n.finish j none

/-- A send to a thread that has died panics the sender. -/
def step (n : Threads ι σ M) : ThreadLabel ι C M → Threads ι σ M
  | .post m => if n.reaches prog m then n.put prog m else n
  | .take j c => match n.state j,n.turn j,n.inbox j with
    | some s,none,m::rest => n.takeUp j (prog.process j c s m) rest
    | _,_,_ => n
  | .send j => match n.turn j with
    | some ⟨m::ms,next⟩ =>
      if n.reaches prog m then n.sendNext prog j m ⟨ms,next⟩ else n.kill j
    | some ⟨[],next⟩ => n.finish j next
    | none => n
  | .crash j => n.kill j

section Fields
variable (n : Threads ι σ M) (j k : ι)

@[simp] theorem takeUp_turn_self (o : Outcome M (σ j)) (rest : List M) :
    (n.takeUp j o rest).turn j=some o := Function.update_self ..

theorem takeUp_turn_of_ne (o : Outcome M (σ j)) (rest : List M) (h : k≠j) :
    (n.takeUp j o rest).turn k=n.turn k := Function.update_of_ne h ..

@[simp] theorem takeUp_inbox_self (o : Outcome M (σ j)) (rest : List M) :
    (n.takeUp j o rest).inbox j=rest := Function.update_self ..

theorem takeUp_inbox_of_ne (o : Outcome M (σ j)) (rest : List M) (h : k≠j) :
    (n.takeUp j o rest).inbox k=n.inbox k := Function.update_of_ne h ..

@[simp] theorem sendNext_turn_self (m : M) (o : Outcome M (σ j)) :
    (n.sendNext prog j m o).turn j=some o := Function.update_self ..

theorem sendNext_turn_of_ne (m : M) (o : Outcome M (σ j)) (h : k≠j) :
    (n.sendNext prog j m o).turn k=n.turn k := Function.update_of_ne h ..

@[simp] theorem finish_state_self (next : Option (σ j)) : (n.finish j next).state j=next :=
  Function.update_self ..

theorem finish_state_of_ne (next : Option (σ j)) (h : k≠j) :
    (n.finish j next).state k=n.state k := Function.update_of_ne h ..

@[simp] theorem finish_turn_self (next : Option (σ j)) : (n.finish j next).turn j=none :=
  Function.update_self ..

theorem finish_turn_of_ne (next : Option (σ j)) (h : k≠j) :
    (n.finish j next).turn k=n.turn k := Function.update_of_ne h ..

/-- A thread that is not the one that died is as it was. -/
theorem kill_state (s : σ k) (h : (n.kill j).state k=some s) :
    k≠j ∧ n.state k=some s ∧ (n.kill j).turn k=n.turn k := by
  by_cases hk : k=j
  · subst hk
    rw [kill,finish_state_self] at h
    cases h
  · rw [kill,finish_state_of_ne n j k none hk] at h
    exact ⟨hk,h,finish_turn_of_ne n j k none hk⟩

theorem kill_turn (o : Outcome M (σ k)) (h : (n.kill j).turn k=some o) : n.turn k=some o := by
  by_cases hk : k=j
  · subst hk
    rw [kill,finish_turn_self] at h
    cases h
  · rwa [kill,finish_turn_of_ne n j k none hk] at h

end Fields

/-- What a step can do. -/
inductive Move (n : Threads ι σ M) : ThreadLabel ι C M → Threads ι σ M → Prop
  | idle (l : ThreadLabel ι C M) : Move n l n
  | post (m : M) : Move n (.post m) (n.put prog m)
  | take (j : ι) (c : C) (s : σ j) (m : M) (rest : List M) (hs : n.state j=some s)
    (ht : n.turn j=none) (hm : n.inbox j=m::rest) :
    Move n (.take j c) (n.takeUp j (prog.process j c s m) rest)
  | send (j : ι) (m : M) (ms : List M) (next : Option (σ j)) (ht : n.turn j=some ⟨m::ms,next⟩) :
    Move n (.send j) (n.sendNext prog j m ⟨ms,next⟩)
  | finish (j : ι) (next : Option (σ j)) (ht : n.turn j=some ⟨[],next⟩) :
    Move n (.send j) (n.finish j next)
  | die (l : ThreadLabel ι C M) (j : ι) : Move n l (n.kill j)

theorem step_move (n : Threads ι σ M) (l : ThreadLabel ι C M) : Move prog n l (n.step prog l) := by
  cases l with
  | post m =>
      rw [step]
      split_ifs
      · exact .post m
      · exact .idle _
  | crash j => exact .die _ j
  | take j c =>
      rw [step]
      split
      · next s m rest hs ht hm => exact .take j c s m rest hs ht hm
      · exact .idle _
  | send j =>
      rw [step]
      split
      · next m ms next ht =>
          split_ifs
          · exact .send j m ms next ht
          · exact .die _ j
      · next next ht => exact .finish j next ht
      · exact .idle _

/-- Who begins a turn with the step, in which state and with which message. -/
def taking (n : Threads ι σ M) : ThreadLabel ι C M → Option ((j : ι) × σ j × M)
  | .take j _ => match n.state j,n.turn j,n.inbox j with
    | some s,none,m::_ => some ⟨j,s,m⟩
    | _,_,_ => none
  | .post _ | .send _ | .crash _ => none

theorem taking_some (n : Threads ι σ M) (l : ThreadLabel ι C M) (j : ι) (s : σ j) (m : M)
    (h : n.taking l=some ⟨j,s,m⟩) :
    ∃ c rest,l=.take j c ∧ n.state j=some s ∧ n.turn j=none ∧ n.inbox j=m::rest ∧
      n.step prog l=n.takeUp j (prog.process j c s m) rest := by
  cases l with
  | take k c =>
      rw [taking] at h
      split at h
      · next s' m' rest hs ht hm =>
          cases h
          exact ⟨c,rest,rfl,hs,ht,hm,by rw [step,hs,ht,hm]⟩
      · cases h
  | post m => cases h
  | send k => cases h
  | crash k => cases h

/-- Every message sent or about to be sent is `good`, and every thread between two turns or at
the end of its present one is in an `ok` state. -/
structure Holds (good : M → Prop) (ok : (j : ι) → σ j → Prop) (n : Threads ι σ M) : Prop where
  state : ∀ j s,n.turn j=none → n.state j=some s → ok j s
  turn : ∀ j o,n.turn j=some o → (∀ m∈o.msgs,good m) ∧ ∀ s,o.next=some s → ok j s
  inbox : ∀ j,∀ m∈n.inbox j,good m
  log : ∀ m∈n.log,good m

section Holds
variable {good good' : M → Prop} {ok ok' : (j : ι) → σ j → Prop} (n : Threads ι σ M)

omit [DecidableEq ι] in
theorem Holds.mono (h : Holds good ok n) (hgood : ∀ m,good m → good' m)
    (hok : ∀ j s,ok j s → ok' j s) : Holds good' ok' n where
  state := fun j s ht hs => hok j s (h.state j s ht hs)
  turn := fun j o ho => ⟨fun m hm => hgood m ((h.turn j o ho).1 m hm),
    fun s hs => hok j s ((h.turn j o ho).2 s hs)⟩
  inbox := fun j m hm => hgood m (h.inbox j m hm)
  log := fun m hm => hgood m (h.log m hm)

theorem Holds.put (h : Holds good ok n) (m : M) (hm : good m) : Holds good ok (n.put prog m) := by
  refine ⟨h.state,h.turn,?_,?_⟩
  · intro j x hx
    rcases List.mem_append.mp hx with hx|hx
    · exact h.inbox j x hx
    · split_ifs at hx
      · rw [List.mem_singleton.mp hx]
        exact hm
      · cases hx
  · intro x hx
    rcases List.mem_append.mp hx with hx|hx
    · exact h.log x hx
    · rw [List.mem_singleton.mp hx]
      exact hm

theorem Holds.finish (h : Holds good ok n) (j : ι) (next : Option (σ j))
    (hnext : ∀ s,next=some s → ok j s) : Holds good ok (n.finish j next) := by
  refine ⟨?_,?_,h.inbox,h.log⟩
  · intro k s ht hs
    by_cases hk : k=j
    · subst hk
      rw [finish_state_self] at hs
      exact hnext s hs
    · rw [finish_turn_of_ne n j k next hk] at ht
      rw [finish_state_of_ne n j k next hk] at hs
      exact h.state k s ht hs
  · intro k o ho
    by_cases hk : k=j
    · subst hk
      rw [finish_turn_self] at ho
      cases ho
    · rw [finish_turn_of_ne n j k next hk] at ho
      exact h.turn k o ho

theorem Holds.sendNext (h : Holds good ok n) (j : ι) (m : M) (ms : List M) (next : Option (σ j))
    (ht : n.turn j=some ⟨m::ms,next⟩) : Holds good ok (n.sendNext prog j m ⟨ms,next⟩) := by
  obtain ⟨hmsgs,hnext⟩ := h.turn j _ ht
  have hput := h.put prog n m (hmsgs m List.mem_cons_self)
  refine ⟨?_,?_,hput.inbox,hput.log⟩
  · intro k s hk hs
    by_cases hkj : k=j
    · subst hkj
      rw [sendNext_turn_self] at hk
      cases hk
    · rw [sendNext_turn_of_ne prog n j k m _ hkj] at hk
      exact h.state k s hk hs
  · intro k o ho
    by_cases hkj : k=j
    · subst hkj
      rw [sendNext_turn_self] at ho
      obtain rfl := Option.some.inj ho
      exact ⟨fun x hx => hmsgs x (List.mem_cons_of_mem _ hx),hnext⟩
    · rw [sendNext_turn_of_ne prog n j k m _ hkj] at ho
      exact h.turn k o ho

/-- A turn may change what is `good` and `ok`, if what was so stays so for the other threads. -/
theorem Holds.takeUp (h : Holds good ok n) (j : ι) (o : Outcome M (σ j)) (m : M) (rest : List M)
    (hm : n.inbox j=m::rest) (hgood : ∀ m,good m → good' m)
    (hok : ∀ k≠j,∀ s,ok k s → ok' k s) (hmsgs : ∀ m∈o.msgs,good' m)
    (hnext : ∀ s,o.next=some s → ok' j s) : Holds good' ok' (n.takeUp j o rest) := by
  refine ⟨?_,?_,?_,fun x hx => hgood x (h.log x hx)⟩
  · intro k s hk hs
    by_cases hkj : k=j
    · subst hkj
      rw [takeUp_turn_self] at hk
      cases hk
    · rw [takeUp_turn_of_ne n j k o rest hkj] at hk
      exact hok k hkj s (h.state k s hk hs)
  · intro k o' ho
    by_cases hkj : k=j
    · subst hkj
      rw [takeUp_turn_self] at ho
      obtain rfl := Option.some.inj ho
      exact ⟨hmsgs,hnext⟩
    · rw [takeUp_turn_of_ne n j k o rest hkj] at ho
      obtain ⟨hmsgs,hnext⟩ := h.turn k o' ho
      exact ⟨fun x hx => hgood x (hmsgs x hx),fun s hs => hok k hkj s (hnext s hs)⟩
  · intro k x hx
    by_cases hkj : k=j
    · subst hkj
      rw [takeUp_inbox_self] at hx
      exact hgood x (h.inbox k x (by rw [hm]; exact List.mem_cons_of_mem _ hx))
    · rw [takeUp_inbox_of_ne n j k o rest hkj] at hx
      exact hgood x (h.inbox k x hx)

/-- Steps that begin no turn keep what holds. -/
theorem Holds.step (h : Holds good ok n) (l : ThreadLabel ι C M) (hl : n.taking l=none)
    (hpost : ∀ m,l=.post m → good m) : Holds good ok (n.step prog l) := by
  have hmove := step_move prog n l
  generalize n.step prog l=n' at hmove
  cases hmove with
  | idle => exact h
  | post m => exact h.put prog n m (hpost m rfl)
  | take j c s m rest hs ht hm =>
      rw [taking,hs,ht,hm] at hl
      cases hl
  | send j m ms next ht => exact h.sendNext prog n j m ms next ht
  | finish j next ht => exact h.finish n j next (h.turn j _ ht).2
  | die l j => exact h.finish n j none (fun s hs => by cases hs)

end Holds

end Threads

/-- An outcome without its auxiliary data. -/
def Outcome.erase {M T σ γ : Type} (o : Outcome (M × T) (σ × γ)) : Outcome M σ :=
  ⟨o.msgs.map Prod.fst,o.next.map Prod.fst⟩

def ThreadLabel.erase {ι C M T : Type} : ThreadLabel ι C (M × T) → ThreadLabel ι C M
  | .post x => .post x.1
  | .take j c => .take j c
  | .send j => .send j
  | .crash j => .crash j

namespace Threads
variable {ι : Type} {σ : ι → Type} {C M : Type} {G : ι → Type} {T : Type}

def erase (n : Threads ι (fun j => σ j × G j) (M × T)) : Threads ι σ M where
  state := fun j => (n.state j).map Prod.fst
  turn := fun j => (n.turn j).map Outcome.erase
  inbox := fun j => (n.inbox j).map Prod.fst
  log := n.log.map Prod.fst

variable [DecidableEq ι] (prog : Program ι σ C M) (gh : Ghost prog G T)

omit [DecidableEq ι] in
theorem process_erase (j : ι) (c : C) (s : σ j × G j) (x : M × T) :
    ((prog.instrument gh).process j c s x).erase=prog.process j c s.1 x.1 := by
  rw [Outcome.erase,Program.instrument]
  dsimp only
  rw [List.map_map,Option.map_map]
  exact congrArg₂ Outcome.mk (List.map_id _) Option.map_id'

omit [DecidableEq ι] in
theorem erase_reaches (n : Threads ι (fun j => σ j × G j) (M × T)) (x : M × T) :
    n.reaches (prog.instrument gh) x=n.erase.reaches prog x.1 := by
  simp only [reaches,erase,Program.instrument,Option.isSome_map]

theorem erase_put (n : Threads ι (fun j => σ j × G j) (M × T)) (x : M × T) :
    (n.put (prog.instrument gh) x).erase=n.erase.put prog x.1 := by
  refine Threads.ext rfl rfl ?_ ?_
  · funext j
    by_cases hj : prog.dest x.1=some j <;> simp [erase,put,Program.instrument,hj]
  · simp [erase,put]

theorem erase_takeUp (n : Threads ι (fun j => σ j × G j) (M × T)) (j : ι)
    (o : Outcome (M × T) (σ j × G j)) (rest : List (M × T)) :
    (n.takeUp j o rest).erase=n.erase.takeUp j o.erase (rest.map Prod.fst) := by
  refine Threads.ext rfl ?_ ?_ rfl
  · funext k
    exact Function.apply_update (fun _ => Option.map Outcome.erase) n.turn j (some o) k
  · funext k
    exact Function.apply_update (fun _ => List.map Prod.fst) n.inbox j rest k

theorem erase_sendNext (n : Threads ι (fun j => σ j × G j) (M × T)) (j : ι) (x : M × T)
    (o : Outcome (M × T) (σ j × G j)) :
    (n.sendNext (prog.instrument gh) j x o).erase=n.erase.sendNext prog j x.1 o.erase := by
  rw [sendNext,sendNext,← erase_put prog gh n x]
  refine Threads.ext rfl ?_ rfl rfl
  funext k
  exact Function.apply_update (fun _ => Option.map Outcome.erase) n.turn j (some o) k

theorem erase_finish (n : Threads ι (fun j => σ j × G j) (M × T)) (j : ι)
    (next : Option (σ j × G j)) : (n.finish j next).erase=n.erase.finish j (next.map Prod.fst) := by
  refine Threads.ext ?_ ?_ rfl rfl
  · funext k
    exact Function.apply_update (fun _ => Option.map Prod.fst) n.state j next k
  · funext k
    exact Function.apply_update (fun _ => Option.map Outcome.erase) n.turn j none k

/-- Dropping the auxiliary data turns a step of the instrumented program into a step of the
program itself. -/
theorem erase_step (n : Threads ι (fun j => σ j × G j) (M × T)) (l : ThreadLabel ι C (M × T)) :
    (n.step (prog.instrument gh) l).erase=n.erase.step prog l.erase := by
  cases l with
  | post x =>
      simp only [step,ThreadLabel.erase,erase_reaches]
      split_ifs
      · exact erase_put prog gh n x
      · rfl
  | crash j => exact erase_finish n j none
  | take j c =>
      have hstate : n.erase.state j=(n.state j).map Prod.fst := rfl
      have hturn : n.erase.turn j=(n.turn j).map Outcome.erase := rfl
      have hinbox : n.erase.inbox j=(n.inbox j).map Prod.fst := rfl
      simp only [step,ThreadLabel.erase,hstate,hturn,hinbox]
      rcases n.state j with _|s
      · rfl
      rcases n.turn j with _|o
      · rcases n.inbox j with _|⟨x,rest⟩
        · rfl
        · simp only [Option.map_some,Option.map_none,List.map_cons]
          rw [erase_takeUp,process_erase]
      · rfl
  | send j =>
      have hturn : n.erase.turn j=(n.turn j).map Outcome.erase := rfl
      simp only [step,ThreadLabel.erase,hturn]
      rcases n.turn j with _|⟨_|⟨x,ms⟩,next⟩
      · rfl
      · simp only [Option.map_some,Outcome.erase,List.map_nil]
        exact erase_finish n j next
      · simp only [Option.map_some,Outcome.erase,List.map_cons,erase_reaches]
        split_ifs
        · exact erase_sendNext prog gh n j x ⟨ms,next⟩
        · exact erase_finish n j none

/-- The same for whole schedules. -/
theorem erase_run (n : Threads ι (fun j => σ j × G j) (M × T))
    (ls : List (ThreadLabel ι C (M × T))) :
    (Run.run (step (prog.instrument gh)) n ls).erase=
      Run.run (step prog) n.erase (ls.map ThreadLabel.erase) := by
  induction ls generalizing n with
  | nil => rfl
  | cons l ls ih => rw [Run.run_cons,ih,erase_step,List.map_cons,Run.run_cons]

end Threads
end BlueRdma
