import Mathlib.Tactic

namespace BlueRdma

/-- A handle of a shared flag. A clone is the same handle. -/
structure AbortSignal where
  inner : Nat
  deriving DecidableEq

namespace AbortSignal

/-- A handle of a new flag, behind the flags there are. -/
def new (flags : List Bool) : List Bool × AbortSignal := (flags++[false],⟨flags.length⟩)

def shouldAbort (flags : List Bool) (a : AbortSignal) : Bool := flags[a.inner]?.getD false

def abort (flags : List Bool) (a : AbortSignal) : List Bool := flags.set a.inner true

/-- Every handle of the same flag sees the store, no other one does. -/
theorem shouldAbort_abort (flags : List Bool) (a b : AbortSignal) (hb : b≠a) :
    shouldAbort (abort flags a) b=shouldAbort flags b := by
  rw [shouldAbort,abort,List.getElem?_set_ne,shouldAbort]
  rintro heq
  exact hb (congrArg mk heq.symm)

theorem shouldAbort_append (flags more : List Bool) (a : AbortSignal) (ha : a.inner<flags.length) :
    shouldAbort (flags++more) a=shouldAbort flags a := by
  rw [shouldAbort,List.getElem?_append_left ha,shouldAbort]

end AbortSignal

/-- The tasks in a channel and the number of its senders. -/
structure TaskChannel (T : Type) where
  tasks : List T
  senders : Nat

namespace TaskChannel
variable {T : Type}

/-- `none` while the call blocks; the answer is `none` when the channel is empty and has no
senders. -/
def recv (c : TaskChannel T) : Option (TaskChannel T × Option T) :=
  match c.tasks with
  | t::ts => some ({c with tasks := ts},some t)
  | [] => if c.senders=0 then some (c,none) else none

def tryRecv (c : TaskChannel T) : TaskChannel T × Option T :=
  match c.tasks with
  | t::ts => ({c with tasks := ts},some t)
  | [] => (c,none)

end TaskChannel

/-- The methods of a worker; all of them return. -/
structure WorkerOps (W T : Type) where
  poll : W → W × Option T
  process : W → T → W
  maintainance : W → W

/-- The loops of `SingleThreadPollingWorker::spawn`, `SingleThreadTaskWorker::spawn` and
`SingleThreadTaskWorker::spawn_polling`. -/
inductive WorkerLoop
  | polling
  | task
  | taskPolling
  deriving DecidableEq

inductive WorkerPc
  /-- In front of `spin_sleep::sleep`. -/
  | sleep
  /-- In front of the test of the signal. -/
  | check
  /-- Behind the test; in `spawn_polling` inside the loop over the tasks. -/
  | body
  /-- Behind the loop. -/
  | exited
  deriving DecidableEq

structure WorkerThread (W : Type) where
  loop : WorkerLoop
  abort : AbortSignal
  worker : W
  pc : WorkerPc

namespace WorkerThread
variable {W T : Type}

/-- The common part of the three: the signal passed in is shadowed by a new one, which moves into
the thread. -/
def spawn (loop : WorkerLoop) (pc : WorkerPc) (self : W) (flags : List Bool)
    (_abort : AbortSignal) : List Bool × WorkerThread W :=
  let (flags,abort) := AbortSignal.new flags
  (flags,⟨loop,abort,self,pc⟩)

/-- One step of the thread. -/
def turn (ops : WorkerOps W T) (flags : List Bool) (x : WorkerThread W) (c : TaskChannel T) :
    WorkerThread W × TaskChannel T :=
  match x.pc with
  | .exited => (x,c)
  | .sleep => ({x with pc := .check},c)
  | .check => if AbortSignal.shouldAbort flags x.abort then ({x with pc := .exited},c)
      else ({x with pc := .body},c)
  | .body => match x.loop with
    | .polling => match ops.poll x.worker with
      | (w,some t) => ({x with worker := ops.process w t,pc := .check},c)
      | (w,none) => ({x with worker := w,pc := .check},c)
    | .task => match c.recv with
      | none => (x,c)
      | some (c,some t) => ({x with worker := ops.process x.worker t,pc := .check},c)
      | some (c,none) => ({x with pc := .exited},c)
    | .taskPolling => match c.tryRecv with
      | (c,some t) => ({x with worker := ops.process x.worker t},c)
      | (c,none) => ({x with worker := ops.maintainance x.worker,pc := .sleep},c)

/-- A step of a thread whose signal is not set: it leaves the loop only when its channel is
closed. -/
theorem turn_spec (ops : WorkerOps W T) (flags : List Bool) (x : WorkerThread W) (c : TaskChannel T)
    (hunset : AbortSignal.shouldAbort flags x.abort=false) :
    (x.turn ops flags c).1.loop=x.loop ∧ (x.turn ops flags c).1.abort=x.abort ∧
      (x.turn ops flags c).2.senders=c.senders ∧
      ((x.turn ops flags c).1.pc=.exited → x.pc=.exited ∨ x.loop=.task ∧ c.senders=0) := by
  obtain ⟨loop,abort,worker,pc⟩ := x
  cases pc with
  | exited => exact ⟨rfl,rfl,rfl,Or.inl⟩
  | sleep => exact ⟨rfl,rfl,rfl,fun h => by cases h⟩
  | check =>
      have hturn : turn ops flags ⟨loop,abort,worker,.check⟩ c=(⟨loop,abort,worker,.body⟩,c) :=
        if_neg (by rw [hunset]; exact Bool.false_ne_true)
      rw [hturn]
      exact ⟨rfl,rfl,rfl,fun h => by cases h⟩
  | body =>
      obtain ⟨tasks,senders⟩ := c
      cases loop with
      | polling =>
          simp only [turn]
          split <;> exact ⟨rfl,rfl,rfl,fun h => by cases h⟩
      | task =>
          cases tasks with
          | cons t tasks => exact ⟨rfl,rfl,rfl,fun h => by cases h⟩
          | nil =>
              by_cases hclosed : senders=0
              · simp only [turn,TaskChannel.recv,if_pos hclosed]
                exact ⟨trivial,trivial,trivial,fun _ => Or.inr ⟨trivial,hclosed⟩⟩
              · simp only [turn,TaskChannel.recv,if_neg hclosed]
                exact ⟨trivial,trivial,trivial,fun h => by cases h⟩
      | taskPolling =>
          cases tasks with
          | cons t tasks => exact ⟨rfl,rfl,rfl,fun h => by cases h⟩
          | nil => exact ⟨rfl,rfl,rfl,fun h => by cases h⟩

end WorkerThread

section Spawn
variable {W : Type} (self : W) (flags : List Bool) (abort : AbortSignal)

def SingleThreadPollingWorker.spawn : List Bool × WorkerThread W :=
  WorkerThread.spawn .polling .check self flags abort

def SingleThreadTaskWorker.spawn : List Bool × WorkerThread W :=
  WorkerThread.spawn .task .check self flags abort

def SingleThreadTaskWorker.spawnPolling : List Bool × WorkerThread W :=
  WorkerThread.spawn .taskPolling .sleep self flags abort

def WorkerLoop.spawn : WorkerLoop → List Bool × WorkerThread W
  | .polling => SingleThreadPollingWorker.spawn self flags abort
  | .task => SingleThreadTaskWorker.spawn self flags abort
  | .taskPolling => SingleThreadTaskWorker.spawnPolling self flags abort

end Spawn
end BlueRdma
