import BlueRdma.RingBuf.Sync
import BlueRdma.Workers.SendWorker

namespace BlueRdma

/-- An attempt to steal loses a race and is to be repeated, or it is carried out. From the injector
it takes `more` chunks along with the first. -/
inductive Attempt
  | race
  | done (more : Nat)

/-- Where a round of the loop of `poll` is: at the local queue, at the injector, or at the queues of
the other threads, with whether an attempt since the injector was tried has lost a race. -/
inductive PollPoint (n : Nat)
  | own
  | injector
  | remotes (rest : List (Fin n)) (retry : Bool)

/-- The call a thread is in: `poll` with the entries it has so far, or `process` with the rest of
its batch and whether it has pushed descriptors. -/
inductive PoolCall (n : Nat)
  | poll (taken : List (Option WrChunk)) (point : PollPoint n)
  | process (wrs : List (Option WrChunk)) (hasNewDesc : Bool)

structure SendThread (n : Nat) where
  worker : SendWorker
  call : PoolCall n := .poll [] .own

/-- The rounds of a call of `poll`. -/
def pollRounds : Nat := 16

namespace SendThread
variable {n : Nat}

def goto (t : SendThread n) (call : PoolCall n) : SendThread n := {t with call := call}

/-- A round ends with its entry; after the last one the batch is processed. -/
def entry (taken : List (Option WrChunk)) (wr : Option WrChunk) : PoolCall n :=
  if taken.length+1<pollRounds then .poll (taken++[wr]) .own else .process (taken++[wr]) false

/-- `Worker::pop`, or a `Stealer::steal` that is carried out. -/
def dropLocal (t : SendThread n) : SendThread n :=
  {t with worker := {t.worker with localQueue := t.worker.localQueue.tail}}

def addLocal (t : SendThread n) (wrs : List WrChunk) : SendThread n :=
  {t with worker := {t.worker with localQueue := t.worker.localQueue++wrs}}

/-- The queues a thread steals from. -/
def others (i : Fin n) : List (Fin n) := (List.finRange n).filter (fun j => j≠i)

end SendThread

/-- The threads and their injector. For the record, the chunks given to `SendHandle::send`, those
whose descriptors each thread has pushed, and the descriptors the device has read from each ring. -/
structure SendPool (n : Nat) where
  injector : List WrChunk := []
  threads : Fin n → SendThread n
  panicked : Bool := false
  sent : List WrChunk := []
  pushed : Fin n → List WrChunk := fun _ => []
  read : Fin n → List DescBytes := fun _ => []

inductive PoolStep (n : Nat)
  /-- `SendHandle::send`. -/
  | send (wr : WrChunk)
  /-- A thread goes on with its call. -/
  | turn (i : Fin n) (attempt : Attempt)
  /-- The device reads `k` descriptors of a ring and moves its tail register over them. -/
  | consume (i : Fin n) (k : Nat)

namespace SendPool
variable {n : Nat}

/-- Zero-initialised rings and registers, empty queues. -/
def init (n : Nat) : SendPool n where
  threads _ := {worker := ⟨[],⟨⟨.zeroed⟩,⟨0,0⟩⟩⟩}

def modify (s : SendPool n) (i : Fin n) (f : SendThread n → SendThread n) : SendPool n :=
  {s with threads := Function.update s.threads i (f (s.threads i))}

/-- A step inside `poll`. The injector is tried again as long as some attempt has lost a race and
none was successful. -/
def pollStep (s : SendPool n) (i : Fin n) (taken : List (Option WrChunk)) (attempt : Attempt) :
    PollPoint n → SendPool n
  | .own => match (s.threads i).worker.localQueue with
    | [] => s.modify i (·.goto (.poll taken .injector))
    | wr::_ => s.modify i (fun t => t.dropLocal.goto (SendThread.entry taken (some wr)))
  | .injector => match attempt,s.injector with
    | .race,_ => s.modify i (·.goto (.poll taken (.remotes (SendThread.others i) true)))
    | .done _,[] => s.modify i (·.goto (.poll taken (.remotes (SendThread.others i) false)))
    | .done more,wr::rest =>
      {s with injector := rest.drop more}.modify i
        (fun t => (t.addLocal (rest.take more)).goto (SendThread.entry taken (some wr)))
  | .remotes [] true => s.modify i (·.goto (.poll taken .injector))
  | .remotes [] false => s.modify i (·.goto (SendThread.entry taken none))
  | .remotes (j::js) retry => match attempt,(s.threads j).worker.localQueue with
    | .race,_ => s.modify i (·.goto (.poll taken (.remotes js true)))
    | .done _,[] => s.modify i (·.goto (.poll taken (.remotes js retry)))
    | .done _,wr::_ =>
      (s.modify j SendThread.dropLocal).modify i (·.goto (SendThread.entry taken (some wr)))

/-- A step inside `process`. -/
def processStep (s : SendPool n) (i : Fin n) (hasNewDesc : Bool) :
    List (Option WrChunk) → SendPool n
  | [] => s.modify i (fun t =>
      {worker := if hasNewDesc then t.worker.syncHead else t.worker,call := .poll [] .own})
  | none::wrs => s.modify i (·.goto (.process wrs hasNewDesc))
  | some wr::wrs => match (s.threads i).worker.submit wr with
    | none => {s with panicked := true}
    | some (w,isPushed) =>
      {s with
        pushed := if isPushed then Function.update s.pushed i (s.pushed i++[wr]) else s.pushed
      }.modify i (fun _ => ⟨w,.process wrs (hasNewDesc || isPushed)⟩)

def csrRing (s : SendPool n) (i : Fin n) : SendRing := (s.threads i).worker.sq.csrRing

/-- What the device finds in the `k` slots from its tail register on. -/
def fetch (s : SendPool n) (i : Fin n) (k : Nat) : List DescBytes :=
  (List.range k).map fun m => (s.threads i).worker.sq.sendQueue.inner.ring.slots
    (((s.csrRing i).tail.toNat+m)%ringBufLen)

def advanceTail (t : SendThread n) (k : Nat) : SendThread n :=
  {t with worker := {t.worker with sq := {t.worker.sq with csrRing := {t.worker.sq.csrRing with
    tail := UInt32.ofNat ((t.worker.sq.csrRing.tail.toNat+k)%8192)}}}}

def step (s : SendPool n) : PoolStep n → SendPool n
  | .send wr => {s with injector := s.injector++[wr],sent := s.sent++[wr]}
  | .turn i attempt =>
    if s.panicked then s
    else match (s.threads i).call with
      | .poll taken point => s.pollStep i taken attempt point
      | .process wrs hasNewDesc => s.processStep i hasNewDesc wrs
  | .consume i k =>
    {s with read := Function.update s.read i (s.read i++s.fetch i k)}.modify i (advanceTail · k)

/-- The device stays behind the head it was told. -/
def Enabled (s : SendPool n) : PoolStep n → Prop
  | .consume i k => k ≤ DmaRingBuf.published (s.csrRing i).head (s.csrRing i).tail
  | .send _ | .turn _ _ => True

end SendPool
end BlueRdma
