import Mathlib.Data.List.TakeWhile
import Mathlib.Logic.Function.Basic
import BlueRdma.Framework.Run

namespace BlueRdma

/-- What processing one message does: the messages sent, in order, and the worker's next
state, which is missing when the thread panicked. -/
structure Outcome (M σ : Type) where
  msgs : List M
  next : Option σ

/-- A single worker: its state while it is alive, and all it has sent. -/
structure Thread (M σ : Type) where
  state : Option σ
  out : List M := []

def Thread.feed {M σ τ : Type} (process : σ → τ → Outcome M σ) (th : Thread M σ) (task : τ) :
    Thread M σ :=
  match th.state with
  | none => th
  | some s => ⟨(process s task).next,th.out++(process s task).msgs⟩

/-- Workers and the channel each message travels on; a message without a receiver leaves the
program. What a worker's behaviour leaves open is passed to it as a choice. -/
structure Program (ι : Type) (σ : ι → Type) (C M : Type) where
  dest : M → Option ι
  process : (j : ι) → C → σ j → M → Outcome M (σ j)

/-- Single-threaded workers joined by unbounded FIFO channels. The state of a worker is missing
once its thread has panicked; the log holds every message sent so far. -/
@[ext] structure Net (ι : Type) (σ : ι → Type) (M : Type) where
  state : (j : ι) → Option (σ j)
  inbox : ι → List M := fun _ => []
  log : List M := []

/-- What can happen next: a message from outside, a worker taking its next message, or a thread
dying for a reason outside the program. -/
inductive NetLabel (ι C M : Type)
  | post (m : M)
  | work (j : ι) (c : C)
  | crash (j : ι)

namespace Net
variable {ι : Type} [DecidableEq ι] {σ : ι → Type} {C M : Type} (prog : Program ι σ C M)

def reaches (n : Net ι σ M) (m : M) : Bool := (prog.dest m).all (fun j => (n.state j).isSome)

/-- A send to a thread that has died panics the sender, so nothing is sent after it. -/
def delivered (n : Net ι σ M) (ms : List M) : List M := ms.takeWhile (n.reaches prog)

def addressed (j : ι) (ms : List M) : List M := ms.filter (fun m => prog.dest m==some j)

def send (n : Net ι σ M) (ms : List M) : Net ι σ M where
  state := n.state
  inbox := fun j => n.inbox j++addressed prog j ms
  log := n.log++ms

/-- A worker in state `s` takes the message `m` and leaves `rest` in its channel. -/
def turn (n : Net ι σ M) (j : ι) (c : C) (s : σ j) (m : M) (rest : List M) : Net ι σ M :=
  let o := prog.process j c s m
  let sent := n.delivered prog o.msgs
  { state := Function.update n.state j (if sent.length=o.msgs.length then o.next else none)
    inbox := fun k => Function.update n.inbox j rest k++addressed prog k sent
    log := n.log++sent }

def work (n : Net ι σ M) (j : ι) (c : C) : Net ι σ M :=
  match n.state j,n.inbox j with
  | some s,m::rest => n.turn prog j c s m rest
  | _,_ => n

def step (n : Net ι σ M) : NetLabel ι C M → Net ι σ M
  | .post m => n.send prog (n.delivered prog [m])
  | .work j c => n.work prog j c
  | .crash j => {n with state := Function.update n.state j none}

/-- One turn of a worker, field by field: it takes the oldest message of its channel and sends
a prefix of what processing it produces, all of it unless the worker dies. -/
structure Turn (n : Net ι σ M) (j : ι) (c : C) (s : σ j) (m : M) (rest sent : List M)
    (n' : Net ι σ M) : Prop where
  alive : n.state j=some s
  head : n.inbox j=m::rest
  sent_prefix : sent<+:(prog.process j c s m).msgs
  log : n'.log=n.log++sent
  inbox_self : n'.inbox j=rest++addressed prog j sent
  inbox_other : ∀ k≠j,n'.inbox k=n.inbox k++addressed prog k sent
  state_self : n'.state j=none ∨
    n'.state j=(prog.process j c s m).next ∧ sent=(prog.process j c s m).msgs
  state_other : ∀ k≠j,n'.state k=n.state k

theorem turn_spec (n : Net ι σ M) (j : ι) (c : C) (s : σ j) (m : M) (rest : List M)
    (hs : n.state j=some s) (hm : n.inbox j=m::rest) :
    ∃ sent,Turn prog n j c s m rest sent (n.turn prog j c s m rest) := by
  refine ⟨n.delivered prog (prog.process j c s m).msgs,hs,hm,List.takeWhile_prefix _,rfl,?_,?_,?_,?_⟩
  · simp only [turn,Function.update_self]
  · intro k hk
    simp only [turn,Function.update_of_ne hk]
  · simp only [turn,Function.update_self]
    split_ifs with hlen
    · exact Or.inr ⟨rfl,(List.takeWhile_prefix _).eq_of_length hlen⟩
    · exact Or.inl rfl
  · intro k hk
    simp only [turn,Function.update_of_ne hk]

theorem work_cases (n : Net ι σ M) (j : ι) (c : C) :
    n.work prog j c=n ∨ ∃ s m rest sent,Turn prog n j c s m rest sent (n.work prog j c) := by
  unfold work
  split
  · next s m rest hs hm => exact Or.inr ⟨s,m,rest,turn_spec prog n j c s m rest hs hm⟩
  · exact Or.inl rfl

/-- A turn in which every message reaches its receiver. -/
theorem work_delivered (n : Net ι σ M) (j : ι) (c : C) (s : σ j) (m : M) (rest : List M)
    (hs : n.state j=some s) (hm : n.inbox j=m::rest)
    (hall : ∀ x∈(prog.process j c s m).msgs,n.reaches prog x=true) :
    n.work prog j c={
      state := Function.update n.state j (prog.process j c s m).next
      inbox := fun k => Function.update n.inbox j rest k++
        addressed prog k (prog.process j c s m).msgs
      log := n.log++(prog.process j c s m).msgs } := by
  have hsent : n.delivered prog (prog.process j c s m).msgs=(prog.process j c s m).msgs :=
    List.takeWhile_eq_self_iff.mpr hall
  rw [work,hs,hm]
  dsimp only [turn]
  rw [hsent,if_pos rfl]

theorem step_crash (n : Net ι σ M) (j k : ι) (s : σ k)
    (h : (n.step prog (.crash j : NetLabel ι C M)).state k=some s) : n.state k=some s := by
  simp only [step] at h
  by_cases hk : k=j
  · subst hk
    rw [Function.update_self] at h
    cases h
  · rwa [Function.update_of_ne hk] at h

theorem step_reaches (n : Net ι σ M) (m : M) (h : n.reaches prog m=true) :
    n.step prog (.post m : NetLabel ι C M)=n.send prog [m] := by
  rw [step,delivered,List.takeWhile_cons_of_pos h,List.takeWhile_nil]

/-- A message from outside is sent or, if its receiver has died, lost. -/
theorem step_post (n : Net ι σ M) (m : M) :
    (n.reaches prog m=true ∧ n.step prog (.post m : NetLabel ι C M)=n.send prog [m]) ∨
      n.step prog (.post m : NetLabel ι C M)=n.send prog [] := by
  by_cases h : n.reaches prog m=true
  · exact Or.inl ⟨h,step_reaches prog n m h⟩
  · refine Or.inr ?_
    rw [step,delivered,List.takeWhile_cons_of_neg h]

theorem mem_addressed (j : ι) (ms : List M) (m : M) :
    m∈addressed prog j ms ↔ m∈ms ∧ prog.dest m=some j := by
  simp [addressed]

/-- What one receiver alone is sent can be read off the channel or off all that was sent. -/
theorem filterMap_addressed {β : Type} (f : M → Option β) (j : ι)
    (hf : ∀ m b,f m=some b → prog.dest m=some j) (ms : List M) :
    (addressed prog j ms).filterMap f=ms.filterMap f := by
  rw [addressed,List.filterMap_filter]
  apply List.filterMap_congr
  intro m hm
  by_cases hd : prog.dest m=some j
  · simp [hd]
  · rcases hb : f m with _|b
    · simp
    · exact absurd (hf m b hb) hd

theorem Turn.mem_inbox (n n' : Net ι σ M) (j : ι) (c : C) (s : σ j) (m : M) (rest sent : List M)
    (ht : Turn prog n j c s m rest sent n') (k : ι) (x : M) (hx : x∈n'.inbox k) :
    x∈n.inbox k ∨ x∈sent := by
  by_cases hk : k=j
  · subst hk
    rw [ht.inbox_self] at hx
    rcases List.mem_append.mp hx with hx|hx
    · exact Or.inl (by rw [ht.head]; exact List.mem_cons_of_mem _ hx)
    · exact Or.inr ((mem_addressed prog k _ x).mp hx).1
  · rw [ht.inbox_other k hk] at hx
    exact (List.mem_append.mp hx).imp_right (fun hx => ((mem_addressed prog k _ x).mp hx).1)

theorem Turn.filterMap_self (n n' : Net ι σ M) (j : ι) (c : C) (s : σ j) (m : M)
    (rest sent : List M) (ht : Turn prog n j c s m rest sent n') {β : Type} (f : M → Option β)
    (hf : ∀ m b,f m=some b → prog.dest m=some j) :
    (n'.inbox j).filterMap f=rest.filterMap f++sent.filterMap f := by
  rw [ht.inbox_self,List.filterMap_append,filterMap_addressed prog f j hf]

theorem Turn.filterMap_other (n n' : Net ι σ M) (j : ι) (c : C) (s : σ j) (m : M)
    (rest sent : List M) (ht : Turn prog n j c s m rest sent n') (k : ι) (hk : k≠j) {β : Type}
    (f : M → Option β) (hf : ∀ m b,f m=some b → prog.dest m=some k) :
    (n'.inbox k).filterMap f=(n.inbox k).filterMap f++sent.filterMap f := by
  rw [ht.inbox_other k hk,List.filterMap_append,filterMap_addressed prog f k hf]

/-- Every worker is alive, and `ms` wait in their channels, oldest first. -/
structure Serves (n : Net ι σ M) (st : (j : ι) → σ j) (ms : List M) : Prop where
  state : ∀ j,n.state j=some (st j)
  inbox : ∀ j,n.inbox j=addressed prog j ms

section Serves
variable (n : Net ι σ M) (st : (j : ι) → σ j) (ms : List M)

theorem Serves.reaches (h : Serves prog n st ms) (m : M) : n.reaches prog m=true := by
  rw [Net.reaches]
  cases prog.dest m with
  | none => rfl
  | some j => rw [Option.all_some,h.state,Option.isSome_some]

theorem Serves.post (h : Serves prog n st ms) (m : M) :
    Serves prog (n.step prog (.post m : NetLabel ι C M)) st (ms++[m]) := by
  rw [step_reaches prog n m (h.reaches prog n st ms m)]
  refine ⟨h.state,fun j => ?_⟩
  change n.inbox j++addressed prog j [m]=_
  rw [h.inbox,addressed,addressed,addressed,List.filter_append]

/-- The worker whose message is the oldest takes it. -/
theorem Serves.work (j : ι) (m : M) (h : Serves prog n st (m::ms)) (hm : prog.dest m=some j)
    (c : C) (s : σ j) (out : List M) (hproc : prog.process j c (st j) m=⟨out,some s⟩) :
    Serves prog (n.step prog (.work j c)) (Function.update st j s) (ms++out) := by
  have hhead : ∀ k,n.inbox k=if k=j then m::addressed prog k ms else addressed prog k ms := by
    intro k
    rw [h.inbox,addressed,List.filter_cons,hm]
    by_cases hk : k=j
    · simp [hk,addressed]
    · simp [hk,Ne.symm hk,addressed]
  have hself : n.inbox j=m::addressed prog j ms := by rw [hhead,if_pos rfl]
  rw [step,work_delivered prog n j c (st j) m _ (h.state j) hself
    (fun x _ => h.reaches prog n st _ x),hproc]
  constructor
  · intro k
    change Function.update n.state j (some s) k=_
    by_cases hk : k=j
    · subst hk
      rw [Function.update_self,Function.update_self]
    · rw [Function.update_of_ne hk,Function.update_of_ne hk,h.state]
  · intro k
    have hrest : Function.update n.inbox j (addressed prog j ms) k=addressed prog k ms := by
      by_cases hk : k=j
      · subst hk
        rw [Function.update_self]
      · rw [Function.update_of_ne hk,hhead,if_neg hk]
    change Function.update n.inbox j (addressed prog j ms) k++addressed prog k out=_
    rw [hrest,addressed,addressed,addressed,List.filter_append]

end Serves

/-- What waits in a channel was sent to it. -/
def Logged (n : Net ι σ M) : Prop := ∀ j,∀ m∈n.inbox j,m∈n.log ∧ prog.dest m=some j

theorem send_logged (n : Net ι σ M) (ms : List M) (h : n.Logged prog) :
    (n.send prog ms).Logged prog := by
  intro j m hm
  rcases List.mem_append.mp hm with hm|hm
  · exact ⟨List.mem_append_left _ (h j m hm).1,(h j m hm).2⟩
  · obtain ⟨hm,hd⟩ := (mem_addressed prog j _ m).mp hm
    exact ⟨List.mem_append_right _ hm,hd⟩

theorem Turn.logged (n n' : Net ι σ M) (j : ι) (c : C) (s : σ j) (m : M) (rest sent : List M)
    (ht : Turn prog n j c s m rest sent n') (h : n.Logged prog) : n'.Logged prog := by
  have hnew : ∀ k,∀ x∈addressed prog k sent,x∈n'.log ∧ prog.dest x=some k := by
    intro k x hx
    obtain ⟨hx,hd⟩ := (mem_addressed prog k _ x).mp hx
    exact ⟨by rw [ht.log]; exact List.mem_append_right _ hx,hd⟩
  have hold : ∀ k,∀ x∈n.inbox k,x∈n'.log ∧ prog.dest x=some k := by
    intro k x hx
    exact ⟨by rw [ht.log]; exact List.mem_append_left _ (h k x hx).1,(h k x hx).2⟩
  intro k x hx
  by_cases hk : k=j
  · subst hk
    rw [ht.inbox_self] at hx
    rcases List.mem_append.mp hx with hx|hx
    · exact hold k x (by rw [ht.head]; exact List.mem_cons_of_mem _ hx)
    · exact hnew k x hx
  · rw [ht.inbox_other k hk] at hx
    rcases List.mem_append.mp hx with hx|hx
    · exact hold k x hx
    · exact hnew k x hx

theorem step_logged (n : Net ι σ M) (l : NetLabel ι C M) (h : n.Logged prog) :
    (n.step prog l).Logged prog := by
  cases l with
  | post m => exact send_logged prog n _ h
  | crash j => exact h
  | work j c =>
      rcases work_cases prog n j c with heq|⟨s,m,rest,sent,ht⟩
      · rw [step,heq]
        exact h
      · exact ht.logged prog n _ j c s m rest sent h

end Net

/-- Auxiliary data for proofs: a tag on each message and a further component in the state of
each worker. Neither can influence what the program does. -/
structure Ghost {ι : Type} {σ : ι → Type} {C M : Type} (prog : Program ι σ C M)
    (G : ι → Type) (T : Type) where
  tag : (j : ι) → C → σ j → G j → M → T → M → T
  next : (j : ι) → C → σ j → G j → M → T → G j

/-- The program with its auxiliary data. -/
def Program.instrument {ι : Type} {σ : ι → Type} {C M : Type} (prog : Program ι σ C M)
    {G : ι → Type} {T : Type} (gh : Ghost prog G T) :
    Program ι (fun j => σ j × G j) C (M × T) where
  dest := fun x => prog.dest x.1
  process := fun j c s x =>
    ⟨(prog.process j c s.1 x.1).msgs.map (fun m => (m,gh.tag j c s.1 s.2 x.1 x.2 m)),
      (prog.process j c s.1 x.1).next.map (fun t => (t,gh.next j c s.1 s.2 x.1 x.2))⟩

namespace Net
variable {ι : Type} {σ : ι → Type} {M : Type} {G : ι → Type} {T : Type}

def erase (n : Net ι (fun j => σ j × G j) (M × T)) : Net ι σ M where
  state := fun j => (n.state j).map Prod.fst
  inbox := fun j => (n.inbox j).map Prod.fst
  log := n.log.map Prod.fst

theorem erase_state (n : Net ι (fun j => σ j × G j) (M × T)) (j : ι) :
    n.erase.state j=(n.state j).map Prod.fst := rfl

theorem erase_inbox (n : Net ι (fun j => σ j × G j) (M × T)) (j : ι) :
    n.erase.inbox j=(n.inbox j).map Prod.fst := rfl

theorem erase_log (n : Net ι (fun j => σ j × G j) (M × T)) : n.erase.log=n.log.map Prod.fst := rfl

end Net

def NetLabel.erase {ι C M T : Type} : NetLabel ι C (M × T) → NetLabel ι C M
  | .post x => .post x.1
  | .work j c => .work j c
  | .crash j => .crash j

namespace Net
variable {ι : Type} [DecidableEq ι] {σ : ι → Type} {C M : Type} {G : ι → Type} {T : Type}
  (prog : Program ι σ C M) (gh : Ghost prog G T)

omit [DecidableEq ι] in
theorem erase_delivered (n : Net ι (fun j => σ j × G j) (M × T)) (ms : List (M × T)) :
    (n.delivered (prog.instrument gh) ms).map Prod.fst=n.erase.delivered prog (ms.map Prod.fst) := by
  have hreach : n.reaches (prog.instrument gh)=n.erase.reaches prog ∘ Prod.fst := by
    funext x
    simp only [reaches,erase,Program.instrument,Function.comp,Option.isSome_map]
  rw [delivered,delivered,hreach,List.takeWhile_map]

theorem erase_addressed (j : ι) (ms : List (M × T)) :
    (addressed (prog.instrument gh) j ms).map Prod.fst=addressed prog j (ms.map Prod.fst) := by
  rw [addressed,addressed,List.filter_map]
  rfl

theorem erase_turn (n : Net ι (fun j => σ j × G j) (M × T)) (j : ι) (c : C) (s : σ j × G j)
    (x : M × T) (rest : List (M × T)) :
    (n.turn (prog.instrument gh) j c s x rest).erase=
      n.erase.turn prog j c s.1 x.1 (rest.map Prod.fst) := by
  have hmsgs : ((prog.instrument gh).process j c s x).msgs.map Prod.fst=
      (prog.process j c s.1 x.1).msgs := by
    rw [Program.instrument,List.map_map]
    exact List.map_id _
  have hsent := erase_delivered prog gh n ((prog.instrument gh).process j c s x).msgs
  rw [hmsgs] at hsent
  have hlen : (n.delivered (prog.instrument gh) ((prog.instrument gh).process j c s x).msgs).length=
      (n.erase.delivered prog (prog.process j c s.1 x.1).msgs).length := by
    rw [← hsent,List.length_map]
  have hall : ((prog.instrument gh).process j c s x).msgs.length=
      (prog.process j c s.1 x.1).msgs.length := by
    rw [← hmsgs,List.length_map]
  have hnext : ((prog.instrument gh).process j c s x).next.map Prod.fst=
      (prog.process j c s.1 x.1).next := by
    rw [Program.instrument,Option.map_map]
    exact Option.map_id'
  refine Net.ext ?_ ?_ ?_
  · funext k
    simp only [erase_state,turn,hlen,hall]
    by_cases hk : k=j
    · subst hk
      simp only [Function.update_self,apply_ite (Option.map Prod.fst),hnext,Option.map_none]
    · simp only [Function.update_of_ne hk,erase_state]
  · funext k
    simp only [erase_inbox,turn,List.map_append,erase_addressed,hsent]
    by_cases hk : k=j
    · subst hk
      simp only [Function.update_self]
    · simp only [Function.update_of_ne hk,erase_inbox]
  · simp only [erase_log,turn,List.map_append,hsent]

/-- A worker that is still alive after its turn has sent all its messages, and both parts of its
state have moved on. -/
theorem Turn.survives (n n' : Net ι (fun j => σ j × G j) (M × T)) (j : ι) (c : C) (s s' : σ j × G j)
    (x : M × T) (rest sent : List (M × T))
    (ht : Turn (prog.instrument gh) n j c s x rest sent n') (hs : n'.state j=some s') :
    (prog.process j c s.1 x.1).next=some s'.1 ∧ s'.2=gh.next j c s.1 s.2 x.1 x.2 ∧
    sent=(prog.process j c s.1 x.1).msgs.map (fun m => (m,gh.tag j c s.1 s.2 x.1 x.2 m)) := by
  rcases ht.state_self with hnone|⟨hstate,hall⟩
  · rw [hnone] at hs
    cases hs
  · rw [hs] at hstate
    obtain ⟨t,hnext,rfl⟩ := Option.map_eq_some_iff.mp hstate.symm
    exact ⟨hnext,rfl,hall⟩

/-- Dropping the auxiliary data turns a step of the instrumented program into a step of the
program itself. -/
theorem erase_step (n : Net ι (fun j => σ j × G j) (M × T)) (l : NetLabel ι C (M × T)) :
    (n.step (prog.instrument gh) l).erase=n.erase.step prog l.erase := by
  cases l with
  | post x =>
      simp only [step,NetLabel.erase,send,erase,List.map_append,erase_addressed,
        erase_delivered,List.map_cons,List.map_nil]
  | crash j =>
      simp only [step,NetLabel.erase,erase,mk.injEq,and_true]
      funext k
      by_cases hk : k=j
      · subst hk
        simp only [Function.update_self,Option.map_none]
      · simp only [Function.update_of_ne hk]
  | work j c =>
      simp only [step,NetLabel.erase,work,erase_state,erase_inbox]
      rcases n.state j with _|s
      · rfl
      rcases n.inbox j with _|⟨x,rest⟩
      · rfl
      · exact erase_turn prog gh n j c s x rest

/-- The same for whole schedules. -/
theorem erase_run (n : Net ι (fun j => σ j × G j) (M × T)) (ls : List (NetLabel ι C (M × T))) :
    (Run.run (step (prog.instrument gh)) n ls).erase=
      Run.run (step prog) n.erase (ls.map NetLabel.erase) := by
  induction ls generalizing n with
  | nil => rfl
  | cons l ls ih => rw [Run.run_cons,ih,erase_step,List.map_cons,Run.run_cons]

end Net
end BlueRdma
