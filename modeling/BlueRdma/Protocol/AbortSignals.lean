import BlueRdma.Framework.Progress
import BlueRdma.Workers.Spawner

namespace BlueRdma

/-- A worker thread, its channel, the flags of all abort signals, and the signals the rest of the
program has handles of. -/
structure AbortSystem (W T : Type) where
  flags : List Bool
  handles : List AbortSignal
  chan : TaskChannel T
  thread : WorkerThread W

inductive AbortStep (T : Type)
  /-- The thread goes on. -/
  | thread
  | send (t : T)
  | cloneTx
  | dropTx
  | newSignal
  /-- `abort` is called through one of the handles. -/
  | abort (i : Nat)

namespace AbortSystem
variable {W T : Type}

/-- The state after a worker was spawned with the signal `passed`. -/
def spawned (loop : WorkerLoop) (self : W) (flags : List Bool) (handles : List AbortSignal)
    (chan : TaskChannel T) (passed : AbortSignal) : AbortSystem W T where
  flags := (loop.spawn self flags passed).1
  handles := handles
  chan := chan
  thread := (loop.spawn self flags passed).2

/-- Only who has a sender can send, clone or drop it. -/
def step (ops : WorkerOps W T) (s : AbortSystem W T) : AbortStep T → AbortSystem W T
  | .thread => {s with
      chan := (s.thread.turn ops s.flags s.chan).2
      thread := (s.thread.turn ops s.flags s.chan).1}
  | .send t => if s.chan.senders=0 then s else {s with chan := {s.chan with tasks := s.chan.tasks++[t]}}
  | .cloneTx => if s.chan.senders=0 then s else {s with chan := {s.chan with senders := s.chan.senders+1}}
  | .dropTx => {s with chan := {s.chan with senders := s.chan.senders-1}}
  | .newSignal => {s with
      flags := (AbortSignal.new s.flags).1
      handles := s.handles++[(AbortSignal.new s.flags).2]}
  | .abort i => match s.handles[i]? with
    | some a => {s with flags := AbortSignal.abort s.flags a}
    | none => s

/-- The thread is the only one with a handle of its signal, and has left its loop only if that is
the one of a task worker whose channel was closed. -/
structure Inv (kind : WorkerLoop) (s : AbortSystem W T) : Prop where
  loop : s.thread.loop=kind
  own : s.thread.abort.inner < s.flags.length
  held : ∀ a∈s.handles,a.inner < s.flags.length ∧ a≠s.thread.abort
  unset : AbortSignal.shouldAbort s.flags s.thread.abort=false
  exited : s.thread.pc=.exited → kind=.task ∧ s.chan.senders=0

theorem spawned_inv (loop : WorkerLoop) (self : W) (flags : List Bool) (handles : List AbortSignal)
    (hhandles : ∀ a∈handles,a.inner<flags.length) (chan : TaskChannel T) (passed : AbortSignal) :
    Inv loop (spawned loop self flags handles chan passed) := by
  have hflags : (loop.spawn self flags passed).1=flags++[false] := by cases loop <;> rfl
  have habort : (loop.spawn self flags passed).2.abort=⟨flags.length⟩ := by cases loop <;> rfl
  have hlength : (flags++[false]).length=flags.length+1 := List.length_append
  refine ⟨by cases loop <;> rfl,?_,?_,?_,?_⟩
  · change (loop.spawn self flags passed).2.abort.inner<(loop.spawn self flags passed).1.length
    rw [hflags,habort,hlength]
    exact Nat.lt_succ_self _
  · intro a ha
    have hlt := hhandles a ha
    change a.inner<(loop.spawn self flags passed).1.length ∧ a≠(loop.spawn self flags passed).2.abort
    rw [hflags,habort,hlength]
    refine ⟨by omega,?_⟩
    rintro rfl
    exact Nat.lt_irrefl _ hlt
  · change AbortSignal.shouldAbort (loop.spawn self flags passed).1
      (loop.spawn self flags passed).2.abort=false
    rw [hflags,habort,AbortSignal.shouldAbort,List.getElem?_concat_length]
    rfl
  · intro hpc
    cases loop <;> cases hpc

variable (ops : WorkerOps W T)

section Steps
variable {loop : WorkerLoop} {s : AbortSystem W T} (h : Inv loop s)
include h

/-- A turn changes neither the signals nor the senders. -/
theorem Inv.thread : Inv loop (s.step ops .thread) := by
  obtain ⟨hloop,habort,hsenders,hexited⟩ := s.thread.turn_spec ops s.flags s.chan h.unset
  refine ⟨hloop.trans h.loop,?_,?_,?_,?_⟩
  · change (s.thread.turn ops s.flags s.chan).1.abort.inner<_
    rw [habort]
    exact h.own
  · change ∀ a∈s.handles,_ ∧ a≠(s.thread.turn ops s.flags s.chan).1.abort
    rw [habort]
    exact h.held
  · change AbortSignal.shouldAbort s.flags (s.thread.turn ops s.flags s.chan).1.abort=false
    rw [habort]
    exact h.unset
  · intro hpc
    change loop=.task ∧ (s.thread.turn ops s.flags s.chan).2.senders=0
    rw [hsenders]
    rcases hexited hpc with hpc|hclosed
    · exact h.exited hpc
    · rwa [h.loop] at hclosed

theorem Inv.newSignal : Inv loop (s.step ops .newSignal) := by
  have hlength : (s.flags++[false]).length=s.flags.length+1 := List.length_append
  refine {h with own := ?_,held := ?_,unset := ?_}
  · exact h.own.trans_le (by rw [step,AbortSignal.new,hlength]; exact Nat.le_succ _)
  · intro a ha
    change a.inner<(s.flags++[false]).length ∧ _
    rw [hlength]
    rcases List.mem_append.mp ha with ha|ha
    · exact ⟨(h.held a ha).1.trans (Nat.lt_succ_self _),(h.held a ha).2⟩
    · obtain rfl := List.mem_singleton.mp ha
      refine ⟨Nat.lt_succ_self _,fun heq => ?_⟩
      have hown := h.own
      rw [← show _=s.thread.abort from heq] at hown
      exact Nat.lt_irrefl _ hown
  · exact (AbortSignal.shouldAbort_append s.flags [false] _ h.own).trans h.unset

/-- No handle left to a caller is the one of the thread. -/
theorem Inv.abort (i : Nat) : Inv loop (s.step ops (.abort i)) := by
  simp only [step]
  cases hi : s.handles[i]? with
  | none => exact h
  | some a =>
      have ha := h.held a (List.mem_of_getElem? hi)
      have hlength : (AbortSignal.abort s.flags a).length=s.flags.length := List.length_set
      refine {h with own := ?_,held := ?_,unset := ?_}
      · change _<(AbortSignal.abort s.flags a).length
        rw [hlength]
        exact h.own
      · change ∀ b∈s.handles,b.inner<(AbortSignal.abort s.flags a).length ∧ _
        rw [hlength]
        exact h.held
      · exact (AbortSignal.shouldAbort_abort s.flags a _ (Ne.symm ha.2)).trans h.unset

end Steps

theorem step_inv (loop : WorkerLoop) (s : AbortSystem W T) (l : AbortStep T) (h : Inv loop s) :
    Inv loop (s.step ops l) := by
  cases l with
  | thread => exact h.thread ops
  | send t =>
      simp only [step]
      split_ifs
      · exact h
      · exact {h with}
  | cloneTx =>
      simp only [step]
      split_ifs with hclosed
      · exact h
      · exact {h with exited := fun hpc => absurd (h.exited hpc).2 hclosed}
  | dropTx =>
      refine {h with exited := fun hpc => ?_}
      obtain ⟨hloop,hclosed⟩ := h.exited hpc
      refine ⟨hloop,?_⟩
      change s.chan.senders-1=0
      rw [hclosed]
  | newSignal => exact h.newSignal ops
  | abort i => exact h.abort ops i

/-- A closed channel stays closed. -/
theorem closed_step (s : AbortSystem W T) (l : AbortStep T)
    (hunset : AbortSignal.shouldAbort s.flags s.thread.abort=false) (h : s.chan.senders=0) :
    (s.step ops l).chan.senders=0 := by
  cases l with
  | thread => exact (s.thread.turn_spec ops s.flags s.chan hunset).2.2.1.trans h
  | send t =>
      rw [step,if_pos h]
      exact h
  | cloneTx =>
      rw [step,if_pos h]
      exact h
  | dropTx => simp only [step,h]
  | newSignal => exact h
  | abort i =>
      simp only [step]
      split <;> exact h

/-- What a task worker with a closed channel has left to do. -/
def rank (s : AbortSystem W T) : Nat := 3*s.chan.tasks.length+match s.thread.pc with
  | .sleep => 3
  | .check => 2
  | .body => 1
  | .exited => 0

theorem rank_thread (s : AbortSystem W T) (h : Inv .task s) (hpc : s.thread.pc≠.exited)
    (hclosed : s.chan.senders=0) : rank (s.step ops .thread) < rank s := by
  obtain ⟨flags,handles,⟨tasks,senders⟩,⟨loop,abort,worker,pc⟩⟩ := s
  obtain rfl := h.loop
  have hunset := h.unset
  cases pc with
  | exited => exact absurd rfl hpc
  | sleep => exact Nat.lt_succ_self _
  | check =>
      have hturn : WorkerThread.turn ops flags ⟨.task,abort,worker,.check⟩ ⟨tasks,senders⟩=
          (⟨.task,abort,worker,.body⟩,⟨tasks,senders⟩) :=
        if_neg (by rw [hunset]; exact Bool.false_ne_true)
      simp only [rank,step,hturn]
      exact Nat.lt_succ_self _
  | body =>
      cases tasks with
      | nil =>
          simp only [rank,step,WorkerThread.turn,TaskChannel.recv,if_pos hclosed]
          exact Nat.lt_succ_self _
      | cons t tasks =>
          simp only [rank,step,WorkerThread.turn,TaskChannel.recv,List.length_cons]
          omega

/-- A closed channel empties, and only the thread takes from it. -/
theorem advances (t : AbortSystem W T) (l : AbortStep T) (h : Inv .task t)
    (hnot : ¬(t.thread.pc=.exited ∨ t.chan.senders≠0)) :
    ((step ops t l).thread.pc=.exited ∨ (step ops t l).chan.senders≠0) ∨
    rank (step ops t l) < rank t ∨
    ¬l=.thread ∧ rank (step ops t l)=rank t ∧ ∀ m : AbortStep T,m=.thread → m=.thread := by
  obtain ⟨hpc,hopen⟩ := not_or.mp hnot
  have hzero := not_not.mp hopen
  cases l with
  | thread => exact Or.inr (Or.inl (rank_thread ops t h hpc hzero))
  | send x =>
      rw [step,if_pos hzero]
      exact Or.inr (Or.inr ⟨fun hl => (by cases hl),rfl,fun _ hm => hm⟩)
  | cloneTx =>
      rw [step,if_pos hzero]
      exact Or.inr (Or.inr ⟨fun hl => (by cases hl),rfl,fun _ hm => hm⟩)
  | dropTx => exact Or.inr (Or.inr ⟨fun hl => (by cases hl),rfl,fun _ hm => hm⟩)
  | newSignal => exact Or.inr (Or.inr ⟨fun hl => (by cases hl),rfl,fun _ hm => hm⟩)
  | abort i =>
      refine Or.inr (Or.inr ⟨fun hl => (by cases hl),?_,fun _ hm => hm⟩)
      simp only [step]
      split <;> rfl

section Schedule
variable (kind : WorkerLoop) (s : AbortSystem W T) (ls : Nat → AbortStep T) (h : Inv kind s)
include h

theorem states_inv (n : Nat) : Inv kind (Run.trace (step ops) s ls n) :=
  Run.trace_inv (step ops) (Inv kind) s ls (fun n _ => step_inv ops kind _ (ls n)) h n

theorem closed_mono (n m : Nat) (hnm : n ≤ m) (hn : (Run.trace (step ops) s ls n).chan.senders=0) :
    (Run.trace (step ops) s ls m).chan.senders=0 := by
  induction m,hnm using Nat.le_induction with
  | base => exact hn
  | succ m _ ih => exact closed_step ops _ _ (states_inv ops kind s ls h m).unset ih

/-- A thread that keeps running leaves its loop exactly if that is the one of a task worker and the
channel is closed some time. -/
theorem exits_iff (hfair : ∀ n,∃ m,n ≤ m ∧ ls m=.thread) (n : Nat) :
    (∃ m,n ≤ m ∧ (Run.trace (step ops) s ls m).thread.pc=.exited) ↔
      kind=.task ∧ ∃ m,(Run.trace (step ops) s ls m).chan.senders=0 := by
  constructor
  · rintro ⟨m,-,hpc⟩
    obtain ⟨hkind,hclosed⟩ := (states_inv ops kind s ls h m).exited hpc
    exact ⟨hkind,m,hclosed⟩
  · rintro ⟨rfl,m,hclosed⟩
    obtain ⟨k,hk,hgoal⟩ := Run.eventually_of_rank (step ops)
      (fun t => t.thread.pc=.exited ∨ t.chan.senders≠0) rank (fun _ l => l=.thread) s ls
      (fun k hnot => advances ops _ (ls k) (states_inv ops .task s ls h k) hnot)
      (fun n _ => hfair n) (max n m)
    have hclosed' := closed_mono ops .task s ls h m k (by omega) hclosed
    exact ⟨k,by omega,hgoal.resolve_right fun hopen => hopen hclosed'⟩

end Schedule

/-- Once the signal is set, the thread leaves its loop. -/
def Obeys (s : AbortSystem W T) (passed : AbortSignal) (ls : Nat → AbortStep T) : Prop :=
  ∀ n,AbortSignal.shouldAbort (Run.trace (step ops) s ls n).flags passed=true →
    ∃ m,n ≤ m ∧ (Run.trace (step ops) s ls m).thread.pc=.exited

/-- The signal passed to `spawn` has no effect: a worker obeys it exactly if it is a task worker
whose channel is closed anyway, or the signal is never set. -/
theorem abort_obeyed_iff (kind : WorkerLoop) (self : W) (flags : List Bool)
    (handles : List AbortSignal) (hhandles : ∀ a∈handles,a.inner<flags.length)
    (chan : TaskChannel T) (passed : AbortSignal) (ls : Nat → AbortStep T)
    (hfair : ∀ n,∃ m,n ≤ m ∧ ls m=.thread) :
    let s := spawned kind self flags handles chan passed
    Obeys ops s passed ls ↔
      ((∃ n,AbortSignal.shouldAbort (Run.trace (step ops) s ls n).flags passed=true) →
        kind=.task ∧ ∃ n,(Run.trace (step ops) s ls n).chan.senders=0) := by
  intro s
  have h := spawned_inv kind self flags handles hhandles chan passed
  constructor
  · rintro hobeys ⟨n,hn⟩
    exact (exits_iff ops kind s ls h hfair n).mp (hobeys n hn)
  · intro hclosed n hn
    exact (exits_iff ops kind s ls h hfair n).mpr (hclosed ⟨n,hn⟩)

/-- A worker without tasks. -/
def idleOps : WorkerOps Unit Unit := ⟨fun w => (w,none),fun w _ => w,id⟩

/-- A worker spawned with a new signal, and the only sender of its channel. -/
def fresh (kind : WorkerLoop) : AbortSystem Unit Unit := spawned kind () [false] [⟨0⟩] ⟨[],1⟩ ⟨0⟩

/-- The signal is set, the sender dropped, and the thread runs on. -/
def abortDrop (n : Nat) : AbortStep Unit :=
  if n=0 then .abort 0 else if n=1 then .dropTx else .thread

theorem abort_obeyed_iff_closed : Obeys idleOps (fresh .task) ⟨0⟩ abortDrop :=
  (abort_obeyed_iff idleOps .task () [false] [⟨0⟩] (by decide) ⟨[],1⟩ ⟨0⟩ abortDrop
    (fun n => ⟨n+2,by omega,rfl⟩)).mpr fun _ => ⟨rfl,2,rfl⟩

/-- The signal is set, and the thread runs on. -/
def abortOnly (n : Nat) : AbortStep Unit := if n=0 then .abort 0 else .thread

/-- With the sender kept, the loop is never left. -/
theorem abortOnly_runs (kind : WorkerLoop) : ¬Obeys idleOps (fresh kind) ⟨0⟩ abortOnly := by
  have h := Run.trace_inv (step idleOps) (fun s => Inv kind s ∧ s.chan.senders=1) (fresh kind)
    abortOnly (by
      rintro n s ⟨hinv,hsender⟩
      refine ⟨step_inv idleOps kind s _ hinv,?_⟩
      rw [abortOnly]
      split_ifs
      · rw [step]
        split <;> exact hsender
      · exact (s.thread.turn_spec idleOps s.flags s.chan hinv.unset).2.2.1.trans hsender)
    ⟨spawned_inv kind () [false] [⟨0⟩] (by decide) ⟨[],1⟩ ⟨0⟩,rfl⟩
  intro hobeys
  obtain ⟨m,-,hpc⟩ := hobeys 1 (by cases kind <;> rfl)
  have hzero := ((h m).1.exited hpc).2
  rw [(h m).2] at hzero
  cases hzero

theorem abort_ignored : ¬Obeys idleOps (fresh .polling) ⟨0⟩ abortOnly ∧
    ¬Obeys idleOps (fresh .task) ⟨0⟩ abortOnly ∧
    ¬Obeys idleOps (fresh .taskPolling) ⟨0⟩ abortOnly :=
  ⟨abortOnly_runs .polling,abortOnly_runs .task,abortOnly_runs .taskPolling⟩

end AbortSystem
end BlueRdma
