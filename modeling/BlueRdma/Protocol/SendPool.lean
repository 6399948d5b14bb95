import BlueRdma.Math.Ledger
import BlueRdma.Protocol.SendRing
import BlueRdma.Workers.SendPool

namespace BlueRdma
open DmaRingBuf

/-- The chunks a call has in its hands. -/
def PoolCall.chunks {n : Nat} : PoolCall n → List WrChunk
  | .poll taken _ => taken.filterMap id
  | .process wrs _ => wrs.filterMap id

/-- Whether descriptors were pushed that the device has not been told of. -/
def PoolCall.dirty {n : Nat} : PoolCall n → Bool
  | .poll _ _ => false
  | .process _ hasNewDesc => hasNewDesc

def SendThread.chunks {n : Nat} (t : SendThread n) : List WrChunk :=
  t.worker.localQueue++t.call.chunks

namespace SendPool
variable {n : Nat}

/-- The chunks no thread has pushed yet, wherever they are. -/
def waiting (s : SendPool n) : Multiset WrChunk := ↑s.injector+∑ i,↑(s.threads i).chunks

/-- The chunks that were pushed to one of the rings. -/
def onRings (s : SendPool n) : Multiset WrChunk := ∑ i,↑(s.pushed i)

/-- The descriptors of chunks, in order. -/
def descriptors (wrs : List WrChunk) : List DescBytes :=
  wrs.flatMap fun wr => [wr.bytes.1,wr.bytes.2]

section Account
variable (s : SendPool n) (i : Fin n)

@[simp] theorem modify_self (f : SendThread n → SendThread n) :
    (s.modify i f).threads i=f (s.threads i) := Function.update_self ..

theorem modify_other (j : Fin n) (hj : j≠i) (f : SendThread n → SendThread n) :
    (s.modify i f).threads j=s.threads j := Function.update_of_ne hj ..

theorem modify_modify (f g : SendThread n → SendThread n) :
    (s.modify i f).modify i g=s.modify i (fun t => g (f t)) := by
  rw [modify,modify_self,modify,modify,Function.update_idem]

theorem waiting_modify (f : SendThread n → SendThread n) :
    (s.modify i f).waiting+↑(s.threads i).chunks=s.waiting+↑(f (s.threads i)).chunks := by
  have h := Ledger.sum_update_entry (fun t : SendThread n => (t.chunks : Multiset WrChunk))
    s.threads i (f (s.threads i))
  rw [waiting,waiting,add_assoc,add_assoc,← h]
  rfl

/-- A thread that keeps its chunks. -/
theorem waiting_modify_perm (f : SendThread n → SendThread n)
    (h : (f (s.threads i)).chunks.Perm (s.threads i).chunks) :
    (s.modify i f).waiting=s.waiting := by
  have hsum := s.waiting_modify i f
  rw [Multiset.coe_eq_coe.mpr h] at hsum
  exact add_right_cancel hsum

theorem waiting_goto (call : PoolCall n) (h : call.chunks=(s.threads i).call.chunks) :
    (s.modify i (·.goto call)).waiting=s.waiting := by
  refine s.waiting_modify_perm i _ (List.Perm.of_eq ?_)
  rw [SendThread.chunks,SendThread.goto,h]
  rfl

@[simp] theorem entry_chunks (taken : List (Option WrChunk)) (wr : Option WrChunk) :
    (SendThread.entry taken wr : PoolCall n).chunks=taken.filterMap id++wr.toList := by
  rw [SendThread.entry]
  split_ifs <;> cases wr <;> simp [PoolCall.chunks]

/-- A chunk taken out of a queue goes to the hands of the thread that took it. -/
theorem waiting_take (j : Fin n) (taken : List (Option WrChunk)) (wr : WrChunk)
    (rest : List WrChunk) (hcall : (s.threads i).call.chunks=taken.filterMap id)
    (hj : (s.threads j).worker.localQueue=wr::rest) :
    ((s.modify j SendThread.dropLocal).modify i
      (·.goto (SendThread.entry taken (some wr)))).waiting=s.waiting := by
  have hdrop := s.waiting_modify j SendThread.dropLocal
  have hgoto := (s.modify j SendThread.dropLocal).waiting_modify i
    (·.goto (SendThread.entry taken (some wr)))
  have hkept : ((s.modify j SendThread.dropLocal).threads i).call=(s.threads i).call := by
    by_cases hij : i=j
    · rw [hij,modify_self]
      rfl
    · rw [modify_other s j i hij]
  have hj' : (s.threads j).chunks=wr::(s.threads j).dropLocal.chunks := by
    rw [SendThread.chunks,hj,SendThread.chunks,SendThread.dropLocal,hj]
    rfl
  have hi' : ((((s.modify j SendThread.dropLocal).threads i).goto
      (SendThread.entry taken (some wr))).chunks : Multiset WrChunk)=
      wr::ₘ↑((s.modify j SendThread.dropLocal).threads i).chunks := by
    rw [SendThread.chunks,SendThread.chunks,hkept,hcall,SendThread.goto,entry_chunks,
      Option.toList_some,← List.append_assoc,Multiset.cons_coe,Multiset.coe_eq_coe]
    exact List.perm_append_singleton ..
  rw [hi',Multiset.add_cons,← Multiset.cons_add] at hgoto
  rw [hj',← Multiset.cons_coe,Multiset.add_cons,← Multiset.cons_add] at hdrop
  exact (add_right_cancel hgoto).trans (add_right_cancel hdrop)

/-- The first chunk of the injector goes to the hands of the thread, more of them to its queue. -/
theorem waiting_batch (more : Nat) (taken : List (Option WrChunk)) (wr : WrChunk)
    (rest : List WrChunk) (hcall : (s.threads i).call.chunks=taken.filterMap id)
    (hinj : s.injector=wr::rest) :
    (({s with injector := rest.drop more} : SendPool n).modify i (fun t =>
      (t.addLocal (rest.take more)).goto (SendThread.entry taken (some wr)))).waiting=
        s.waiting := by
  obtain ⟨s',hs'⟩ : ∃ s',s'=({s with injector := rest.drop more} : SendPool n) := ⟨_,rfl⟩
  have hsum := s'.waiting_modify i (fun t =>
    (t.addLocal (rest.take more)).goto (SendThread.entry taken (some wr)))
  have hrest : s'.waiting+↑(wr::rest.take more)=s.waiting := by
    rw [hs',waiting,waiting,hinj]
    conv_rhs => rw [← List.take_append_drop more rest]
    rw [← Multiset.cons_coe,← Multiset.cons_coe,← Multiset.coe_add,← Multiset.singleton_add,
      ← Multiset.singleton_add]
    abel
  have hi : s'.threads i=s.threads i := by rw [hs']
  have hchunks : (((s.threads i).addLocal (rest.take more)).goto
      (SendThread.entry taken (some wr))).chunks.Perm ((wr::rest.take more)++(s.threads i).chunks) := by
    rw [SendThread.chunks,SendThread.chunks,SendThread.goto,entry_chunks,hcall,SendThread.addLocal]
    refine List.perm_iff_count.mpr fun c => ?_
    simp only [List.count_append,List.count_cons,Option.toList_some,List.count_nil]
    omega
  rw [hi,Multiset.coe_eq_coe.mpr hchunks,← Multiset.coe_add,← add_assoc,hrest] at hsum
  rw [← hs']
  exact add_right_cancel hsum

variable (taken : List (Option WrChunk)) (attempt : Attempt)

/-- Wherever a round of `poll` is, chunks only change hands. -/
theorem pollStep_waiting (point : PollPoint n) (hcall : (s.threads i).call=.poll taken point) :
    (s.pollStep i taken attempt point).waiting=s.waiting := by
  have hchunks : (s.threads i).call.chunks=taken.filterMap id := by rw [hcall]; rfl
  have hgoto (point' : PollPoint n) :
      (s.modify i (·.goto (.poll taken point'))).waiting=s.waiting :=
    s.waiting_goto i _ hchunks.symm
  cases point with
  | own =>
      simp only [pollStep]
      split
      · exact hgoto _
      next wr rest hlocal =>
        rw [← s.waiting_take i i taken wr rest hchunks hlocal,modify_modify]
  | injector =>
      simp only [pollStep]
      split
      · exact hgoto _
      · exact hgoto _
      next more wr rest hinj => exact s.waiting_batch i more taken wr rest hchunks hinj
  | remotes js retry =>
      rcases js with _|⟨j,js⟩
      · cases retry with
        | true => exact hgoto _
        | false => exact s.waiting_goto i _ (by rw [entry_chunks,hchunks]; simp)
      · simp only [pollStep]
        split
        · exact hgoto _
        · exact hgoto _
        next more wr rest hlocal => exact s.waiting_take i j taken wr rest hchunks hlocal

end Account

/-- The ring is in step with what was pushed and read; the device knows of all of it unless the call
in progress has pushed something. -/
structure RingOk (sq : SendQueueSync) (dirty : Bool) (pushed : List WrChunk)
    (read : List DescBytes) : Prop where
  synced : ∃ low told,Synced sq.sendQueue.inner.ring sq.csrRing.head sq.csrRing.tail
    (descriptors pushed) read.length low told ∧ (dirty=false → told=(descriptors pushed).length)
  readOk : read<+:descriptors pushed

theorem descriptors_concat (wrs : List WrChunk) (wr : WrChunk) :
    descriptors (wrs++[wr])=descriptors wrs++[wr.bytes.1,wr.bytes.2] := by
  simp [descriptors]

section Ring
variable {sq : SendQueueSync} {dirty : Bool} {pushed : List WrChunk} {read : List DescBytes}

theorem RingOk.init : RingOk ⟨⟨.zeroed⟩,⟨0,0⟩⟩ false [] [] :=
  ⟨⟨0,0,new_synced _,fun _ => rfl⟩,List.prefix_refl _⟩

/-- What the device reads is what was pushed next. -/
theorem RingOk.consume (h : RingOk sq dirty pushed read) (k : Nat)
    (hk : k ≤ published sq.csrRing.head sq.csrRing.tail) :
    RingOk {sq with csrRing := {sq.csrRing with
        tail := UInt32.ofNat ((sq.csrRing.tail.toNat+k)%8192)}} dirty pushed
      (read++(List.range k).map fun m =>
        sq.sendQueue.inner.ring.slots ((sq.csrRing.tail.toNat+m)%ringBufLen)) := by
  obtain ⟨⟨low,told,hsync,htold⟩,hread⟩ := h
  have hpub := hsync.published_eq
  have hle := hsync.told_le
  have hge := hsync.told_ge
  refine ⟨⟨low,told,?_,htold⟩,?_⟩
  · rw [List.length_append,List.length_map,List.length_range]
    exact hsync.consume k hk
  · rw [hsync.slots_eq k hk]
    obtain ⟨more,hmore⟩ := hread
    rw [← hmore,List.drop_left]
    exact (List.prefix_append_right_inj _).mpr (List.take_prefix ..)

/-- The head register is brought up to date. -/
theorem RingOk.syncHead (h : RingOk sq dirty pushed read) : RingOk sq.syncHead false pushed read := by
  obtain ⟨⟨low,told,hsync,-⟩,hread⟩ := h
  exact ⟨⟨low,_,hsync.writeHead,fun _ => rfl⟩,hread⟩

/-- The two descriptors of a chunk are pushed, or the chunk goes back to the local queue. -/
theorem RingOk.submit (w : SendWorker) (wr : WrChunk) (h : RingOk w.sq dirty pushed read) :
    ∃ w' isPushed,w.submit wr=some (w',isPushed) ∧
      w'.localQueue=w.localQueue++(if isPushed then [] else [wr]) ∧
      RingOk w'.sq (dirty || isPushed) (if isPushed then pushed++[wr] else pushed) read := by
  obtain ⟨⟨low,told,hsync,htold⟩,hread⟩ := h
  have hlow := hsync.low_le
  have hle := hsync.told_ge.trans hsync.told_le
  obtain ⟨low',w',isPushed,hsubmit,hlow',hhigh,hwindow,hcsr,hlocal⟩ :=
    SendSystem.submit_window w wr read.length hsync.window hsync.tail hsync.behind (by
      rw [List.length_drop]
      omega)
  rw [List.drop_drop,show low+(low'-low)=low' by omega] at hwindow
  refine ⟨w',isPushed,hsubmit,?_,?_⟩
  · rw [hlocal]
    cases isPushed <;> rfl
  · cases isPushed with
    | true =>
        change RingOk _ (dirty || true) (pushed++[wr]) _
        rw [Bool.or_true]
        refine ⟨⟨low',told,⟨?_,?_,?_,hhigh,hsync.told_ge,?_⟩,fun h => (by cases h)⟩,?_⟩
        · rw [descriptors_concat,List.drop_append_of_le_length (hhigh.trans hle)]
          exact hwindow
        · rw [hcsr]
          exact hsync.tail
        · rw [hcsr]
          exact hsync.head
        · rw [descriptors_concat,List.length_append]
          exact hsync.told_le.trans (Nat.le_add_right ..)
        · rw [descriptors_concat]
          exact hread.trans (List.prefix_append ..)
    | false =>
        change RingOk _ (dirty || false) pushed _
        rw [Bool.or_false]
        refine ⟨⟨low',told,⟨?_,?_,?_,hhigh,hsync.told_ge,hsync.told_le⟩,htold⟩,hread⟩
        · simpa [SendSystem.descriptors,SendSystem.ring] using hwindow
        · rw [hcsr]
          exact hsync.tail
        · rw [hcsr]
          exact hsync.head

end Ring

/-- What holds in every state. -/
structure Inv (s : SendPool n) : Prop where
  alive : s.panicked=false
  account : (s.sent : Multiset WrChunk)=s.waiting+s.onRings
  rings : ∀ i,RingOk (s.threads i).worker.sq (s.threads i).call.dirty (s.pushed i) (s.read i)

theorem init_inv (n : Nat) : Inv (init n) where
  alive := rfl
  account := by simp [waiting,onRings,init,SendThread.chunks,PoolCall.chunks]
  rings _ := RingOk.init

@[simp] theorem entry_dirty (taken : List (Option WrChunk)) (wr : Option WrChunk) :
    (SendThread.entry taken wr : PoolCall n).dirty=false := by
  rw [SendThread.entry]
  split_ifs <;> rfl

/-- Nothing but the queues and calls of threads differs. -/
structure Frame (s s' : SendPool n) : Prop where
  panicked : s'.panicked=s.panicked
  sent : s'.sent=s.sent
  pushed : s'.pushed=s.pushed
  read : s'.read=s.read
  sq : ∀ j,(s'.threads j).worker.sq=(s.threads j).worker.sq
  dirty : ∀ j,(s'.threads j).call.dirty=(s.threads j).call.dirty

theorem Frame.inv (s s' : SendPool n) (h : Frame s s') (hwaiting : s'.waiting=s.waiting)
    (hinv : Inv s) : Inv s' where
  alive := h.panicked.trans hinv.alive
  account := by
    rw [h.sent,hwaiting,onRings,h.pushed]
    exact hinv.account
  rings j := by
    rw [h.sq,h.dirty,h.pushed,h.read]
    exact hinv.rings j

section Steps
variable (s : SendPool n) (i : Fin n)

theorem frame_modify (f : SendThread n → SendThread n)
    (hsq : (f (s.threads i)).worker.sq=(s.threads i).worker.sq)
    (hdirty : (f (s.threads i)).call.dirty=(s.threads i).call.dirty) : Frame s (s.modify i f) := by
  refine ⟨rfl,rfl,rfl,rfl,fun j => ?_,fun j => ?_⟩
  · by_cases hj : j=i
    · rw [hj,modify_self,hsq]
    · rw [s.modify_other i j hj]
  · by_cases hj : j=i
    · rw [hj,modify_self,hdirty]
    · rw [s.modify_other i j hj]

/-- `poll` touches no ring. -/
theorem pollStep_frame (taken : List (Option WrChunk)) (attempt : Attempt) (point : PollPoint n)
    (hcall : (s.threads i).call=.poll taken point) :
    Frame s (s.pollStep i taken attempt point) := by
  have hclean : (s.threads i).call.dirty=false := by rw [hcall]; rfl
  have hgoto (point' : PollPoint n) : Frame s (s.modify i (·.goto (.poll taken point'))) :=
    s.frame_modify i _ rfl hclean.symm
  cases point with
  | own =>
      simp only [pollStep]
      split
      · exact hgoto _
      · exact s.frame_modify i _ rfl ((entry_dirty ..).trans hclean.symm)
  | injector =>
      simp only [pollStep]
      split
      · exact hgoto _
      · exact hgoto _
      next more wr rest hinj =>
        have h := ({s with injector := rest.drop more} : SendPool n).frame_modify i (fun t =>
          (t.addLocal (rest.take more)).goto (SendThread.entry taken (some wr))) rfl
          ((entry_dirty ..).trans hclean.symm)
        exact ⟨h.panicked,h.sent,h.pushed,h.read,h.sq,h.dirty⟩
  | remotes js retry =>
      rcases js with _|⟨j,js⟩
      · cases retry with
        | true => exact hgoto _
        | false =>
            exact s.frame_modify i (·.goto (SendThread.entry taken none)) rfl
              ((entry_dirty ..).trans hclean.symm)
      · simp only [pollStep]
        split
        · exact hgoto _
        · exact hgoto _
        next more wr rest hlocal =>
          have h := s.frame_modify j SendThread.dropLocal rfl rfl
          have h' := (s.modify j SendThread.dropLocal).frame_modify i
            (·.goto (SendThread.entry taken (some wr))) rfl
            ((entry_dirty ..).trans ((h.dirty i).trans hclean).symm)
          exact ⟨h'.panicked,h'.sent,h'.pushed,h'.read,fun m => (h'.sq m).trans (h.sq m),
            fun m => (h'.dirty m).trans (h.dirty m)⟩

/-- A step that changes the ring of one thread: the chunks it no longer holds were pushed. -/
theorem inv_modify (h : Inv s) (t : SendThread n) (pushed : List WrChunk) (read : List DescBytes)
    (hchunks : (↑t.chunks+↑pushed : Multiset WrChunk)=↑(s.threads i).chunks+↑(s.pushed i))
    (hring : RingOk t.worker.sq t.call.dirty pushed read) :
    Inv (({s with
      pushed := Function.update s.pushed i pushed
      read := Function.update s.read i read} : SendPool n).modify i (fun _ => t)) := by
  refine ⟨h.alive,?_,fun j => ?_⟩
  · have hwaiting := s.waiting_modify i (fun _ => t)
    have hrings := Ledger.sum_update_entry (fun wrs : List WrChunk => (wrs : Multiset WrChunk))
      s.pushed i pushed
    have haccount := h.account
    change (s.sent : Multiset WrChunk)=(s.modify i (fun _ => t)).waiting+
      ∑ j,↑(Function.update s.pushed i pushed j)
    have hsum : (s.sent : Multiset WrChunk)+(↑(s.threads i).chunks+↑(s.pushed i))=
        (s.modify i (fun _ => t)).waiting+∑ j,↑(Function.update s.pushed i pushed j)+
          (↑(s.threads i).chunks+↑(s.pushed i)) := by
      calc (s.sent : Multiset WrChunk)+(↑(s.threads i).chunks+↑(s.pushed i))
          =(s.waiting+↑t.chunks)+(s.onRings+↑pushed) := by rw [haccount,← hchunks]; abel
        _=((s.modify i (fun _ => t)).waiting+↑(s.threads i).chunks)+
            (∑ j,↑(Function.update s.pushed i pushed j)+↑(s.pushed i)) := by
          rw [hwaiting,hrings]
          rfl
        _=_ := by abel
    exact add_right_cancel hsum
  · by_cases hj : j=i
    · subst hj
      rw [modify_self]
      change RingOk _ _ (Function.update s.pushed j pushed j) (Function.update s.read j read j)
      rwa [Function.update_self,Function.update_self]
    · rw [modify_other _ i j hj]
      change RingOk _ _ (Function.update s.pushed i pushed j) (Function.update s.read i read j)
      rw [Function.update_of_ne hj,Function.update_of_ne hj]
      exact h.rings j

theorem processStep_inv (h : Inv s) (wrs : List (Option WrChunk)) (hasNewDesc : Bool)
    (hcall : (s.threads i).call=.process wrs hasNewDesc) :
    Inv (s.processStep i hasNewDesc wrs) := by
  have hring := h.rings i
  rw [hcall] at hring
  rcases wrs with _|⟨_|wr,wrs⟩
  · have hsync : RingOk (if hasNewDesc then (s.threads i).worker.syncHead else
        (s.threads i).worker).sq false (s.pushed i) (s.read i) := by
      cases hasNewDesc with
      | true => exact hring.syncHead
      | false => exact hring
    have hinv := s.inv_modify i h
      ⟨if hasNewDesc then (s.threads i).worker.syncHead else (s.threads i).worker,.poll [] .own⟩
      (s.pushed i) (s.read i) (by
        rw [SendThread.chunks,SendThread.chunks,hcall]
        cases hasNewDesc <;> rfl) hsync
    rwa [Function.update_eq_self,Function.update_eq_self] at hinv
  · exact (s.frame_modify i (·.goto (.process wrs hasNewDesc)) rfl (by rw [hcall]; rfl)).inv s _
      (s.waiting_goto i _ (by rw [hcall]; rfl)) h
  · obtain ⟨w,isPushed,hsubmit,hlocal,hnext⟩ := RingOk.submit (s.threads i).worker wr hring
    have hchunks : (s.threads i).chunks=
        (s.threads i).worker.localQueue++wr::wrs.filterMap id := by
      rw [SendThread.chunks,hcall]
      rfl
    have hkept : (↑(⟨w,.process wrs (hasNewDesc || isPushed)⟩ : SendThread n).chunks+
        ↑(if isPushed then s.pushed i++[wr] else s.pushed i) : Multiset WrChunk)=
        ↑(s.threads i).chunks+↑(s.pushed i) := by
      have hnew : (⟨w,.process wrs (hasNewDesc || isPushed)⟩ : SendThread n).chunks=
          w.localQueue++wrs.filterMap id := rfl
      rw [hchunks,hnew,hlocal,Multiset.coe_add,Multiset.coe_add,Multiset.coe_eq_coe,
        List.perm_iff_count]
      intro c
      cases isPushed <;> simp [List.count_cons] <;> omega
    have hinv := s.inv_modify i h _ _ (s.read i) hkept hnext
    rw [Function.update_eq_self] at hinv
    have hstep : s.processStep i hasNewDesc (some wr::wrs)=
        ({s with pushed := if isPushed then Function.update s.pushed i (s.pushed i++[wr])
          else s.pushed} : SendPool n).modify i
            (fun _ => ⟨w,.process wrs (hasNewDesc || isPushed)⟩) := by
      unfold processStep
      dsimp only
      rw [hsubmit]
    rw [hstep]
    cases isPushed with
    | true => exact hinv
    | false =>
        simp only [Bool.false_eq_true,if_false] at hinv ⊢
        rwa [Function.update_eq_self] at hinv

theorem step_inv (l : PoolStep n) (hl : s.Enabled l) (h : Inv s) : Inv (s.step l) := by
  cases l with
  | send wr =>
      refine ⟨h.alive,?_,h.rings⟩
      change ((s.sent++[wr] : List WrChunk) : Multiset WrChunk)=
        ↑(s.injector++[wr])+∑ i,↑(s.threads i).chunks+s.onRings
      rw [← Multiset.coe_add,h.account,waiting,← Multiset.coe_add]
      abel
  | turn i attempt =>
      rw [step,h.alive,if_neg Bool.false_ne_true]
      split
      next taken point hcall =>
        exact (s.pollStep_frame i taken attempt point hcall).inv s _
          (s.pollStep_waiting i taken attempt point hcall) h
      next wrs hasNewDesc hcall => exact s.processStep_inv i h wrs hasNewDesc hcall
  | consume i k =>
      have hinv := s.inv_modify i h (advanceTail (s.threads i) k) (s.pushed i) (s.read i++s.fetch i k)
        rfl ((h.rings i).consume k hl)
      rwa [Function.update_eq_self] at hinv

end Steps

theorem run_inv (ls : List (PoolStep n)) (hls : Run.Along step Enabled (init n) ls) :
    Inv (Run.run step (init n) ls) :=
  Run.run_inv step Enabled Inv (fun s l hl h => s.step_inv l hl h) (init n) ls hls (init_inv n)

/-- In every interleaving of any number of send threads with each other, the callers of
`SendHandle::send` and a device that stays behind the heads it was told: no thread panics, every
chunk that was handed over is either on exactly one ring or still held in exactly one place, and
from each ring the device reads the two descriptors of every chunk pushed there, in order and once;
those it has not read are intact in their slots. -/
theorem chunks_sent_once (ls : List (PoolStep n)) (hls : Run.Along step Enabled (init n) ls) :
    let s := Run.run step (init n) ls
    s.panicked=false ∧
    (s.sent : Multiset WrChunk)=s.waiting+s.onRings ∧
    ∀ i,s.read i<+:descriptors (s.pushed i) ∧
      (descriptors (s.pushed i)).length ≤ (s.read i).length+ringBufLen ∧
      ∀ k d,(s.read i).length ≤ k → (descriptors (s.pushed i))[k]?=some d →
        (s.threads i).worker.sq.sendQueue.inner.ring.slots (k%ringBufLen)=d := by
  intro s
  have hinv := run_inv ls hls
  refine ⟨hinv.alive,hinv.account,fun i => ?_⟩
  obtain ⟨⟨low,told,hsync,-⟩,hread⟩ := hinv.rings i
  have hlen := hsync.length_le
  have hlow := hsync.behind
  refine ⟨hread,?_,fun k d hk hd => hsync.slot_eq k d hd hk⟩
  exact hlen.trans (Nat.add_le_add_right hlow 4096)

/-- Two threads: the first takes both chunks from the injector, the second steals one of them. -/
def stolen : List (PoolStep 2) :=
  [.send {},.send wideChunk,.turn 0 (.done 0),.turn 0 (.done 1),.turn 1 (.done 0),
    .turn 1 (.done 0),.turn 1 (.done 0)]

theorem chunks_sent_once_stolen :
    Run.Along step Enabled (init 2) stolen ∧
    ((Run.run step (init 2) stolen).threads 0).chunks=[{}] ∧
    ((Run.run step (init 2) stolen).threads 1).chunks=[wideChunk] ∧
    ((Run.run step (init 2) stolen).sent : Multiset WrChunk)=
      (Run.run step (init 2) stolen).waiting+(Run.run step (init 2) stolen).onRings := by
  have hls : Run.Along step Enabled (init 2) stolen := by
    simp [stolen,Run.Along,Enabled]
  exact ⟨hls,by decide +kernel,by decide +kernel,(chunks_sent_once stolen hls).2.1⟩

end SendPool
end BlueRdma
