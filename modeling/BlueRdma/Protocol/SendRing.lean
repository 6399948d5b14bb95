import BlueRdma.RingBuf.Sync
import BlueRdma.Workers.SendWorker

namespace BlueRdma
open DmaRingBuf

/-- A send thread with its ring. A call of `process` is the rest of its batch and whether it has
pushed descriptors. The last three fields record what happened so far. -/
structure SendSystem where
  worker : SendWorker
  call : Option (List (Option WrChunk) × Bool) := none
  panicked : Bool := false
  handed : List WrChunk := []
  outcomes : List (WrChunk × Bool) := []
  consumed : Nat := 0

inductive SendStep
  /-- `process` is called. -/
  | begin (wrs : List (Option WrChunk))
  /-- The call goes on with its next entry, or returns. -/
  | next
  /-- The device moves its tail register over `n` descriptors. -/
  | consume (n : Nat)

namespace SendSystem

/-- A zero-initialised ring and registers. -/
def init : SendSystem := {worker := ⟨[],⟨⟨.zeroed⟩,⟨0,0⟩⟩⟩}

/-- Descriptors between the two registers, which are 13-bit pointers. -/
def published (s : SendSystem) : Nat :=
  (s.worker.sq.csrRing.head.toNat+8192-s.worker.sq.csrRing.tail.toNat)%8192

/-- Calls do not overlap, and the device stays behind the head it was told. -/
def Enabled (s : SendSystem) : SendStep → Prop
  | .begin _ => s.call=none
  | .next => True
  | .consume n => n ≤ s.published

def advanceTail (w : SendWorker) (n : Nat) : SendWorker :=
  {w with sq := {w.sq with csrRing :=
    {w.sq.csrRing with tail := UInt32.ofNat ((w.sq.csrRing.tail.toNat+n)%8192)}}}

def step (s : SendSystem) : SendStep → SendSystem
  | .begin wrs => {s with call := some (wrs,false),handed := s.handed++wrs.filterMap id}
  | .consume n => {s with worker := advanceTail s.worker n,consumed := s.consumed+n}
  | .next =>
    if s.panicked then s
    else match s.call with
    | none => s
    | some ([],hasNewDesc) =>
      {s with worker := if hasNewDesc then s.worker.syncHead else s.worker,call := none}
    | some (none::wrs,hasNewDesc) => {s with call := some (wrs,hasNewDesc)}
    | some (some wr::wrs,hasNewDesc) => match s.worker.submit wr with
      | none => {s with panicked := true}
      | some (w,pushed) =>
        {s with
          worker := w
          call := some (wrs,hasNewDesc || pushed)
          outcomes := s.outcomes++[(wr,pushed)]}

theorem step_next_entry (s : SendSystem) (wr : WrChunk) (wrs : List (Option WrChunk))
    (hasNewDesc : Bool) (hcall : s.call=some (some wr::wrs,hasNewDesc)) (hp : s.panicked=false) :
    s.step .next=match s.worker.submit wr with
      | none => {s with panicked := true}
      | some (w,pushed) =>
        {s with
          worker := w
          call := some (wrs,hasNewDesc || pushed)
          outcomes := s.outcomes++[(wr,pushed)]} := by
  simp only [step,hp,hcall,Bool.false_eq_true,if_false]

/-- Without device steps in between, a call is the source's `process`. -/
theorem run_process (s : SendSystem) (wrs : List (Option WrChunk)) (hasNewDesc : Bool)
    (hcall : s.call=some (wrs,hasNewDesc)) (hp : s.panicked=false) (w : SendWorker)
    (h : s.worker.processFrom hasNewDesc wrs=some w) :
    (Run.run step s (List.replicate (wrs.length+1) .next)).worker=w ∧
      (Run.run step s (List.replicate (wrs.length+1) .next)).call=none := by
  induction wrs generalizing s hasNewDesc with
  | nil =>
      have hstep : s.step .next={s with
          worker := if hasNewDesc then s.worker.syncHead else s.worker
          call := none} := by
        simp only [step,hp,hcall,Bool.false_eq_true,if_false]
      change (s.step .next).worker=w ∧ (s.step .next).call=none
      rw [hstep]
      rw [SendWorker.processFrom] at h
      exact ⟨Option.some.inj h,rfl⟩
  | cons x wrs ih =>
      rw [List.length_cons,List.replicate_succ,Run.run_cons]
      cases x with
      | none =>
          have hstep : s.step .next={s with call := some (wrs,hasNewDesc)} := by
            simp only [step,hp,hcall,Bool.false_eq_true,if_false]
          rw [hstep]
          rw [SendWorker.processFrom] at h
          exact ih {s with call := some (wrs,hasNewDesc)} hasNewDesc rfl hp h
      | some wr =>
          rw [step_next_entry s wr wrs hasNewDesc hcall hp]
          rw [SendWorker.processFrom] at h
          cases hsub : s.worker.submit wr with
          | none =>
              rw [hsub] at h
              cases h
          | some r =>
              rw [hsub] at h
              exact ih _ _ rfl hp h

/-- The descriptors that were pushed, in order. -/
def descriptors (outcomes : List (WrChunk × Bool)) : List DescBytes :=
  outcomes.flatMap (fun o => if o.2 then [o.1.bytes.1,o.1.bytes.2] else [])

/-- The chunks that went back to the local queue. -/
def returned (outcomes : List (WrChunk × Bool)) : List WrChunk :=
  (outcomes.filter (fun o => !o.2)).map Prod.fst

/-- What is left of the call in progress. -/
def pending (s : SendSystem) : List WrChunk := (s.call.elim [] Prod.fst).filterMap id

def ring (w : SendWorker) : DmaRingBuf DescBytes := w.sq.sendQueue.inner.ring

section Submit
variable {T : Nat} {l : List DescBytes}

theorem pushAll_window (q : SendQueue) (descs : List SendQueueDesc)
    (h : Window q.inner.ring T l) (hroom : l.length+descs.length≤4096) :
    ∃ q',q.pushAll descs=some q' ∧
      Window q'.inner.ring T (l++descs.map DescSerialize.serialize) := by
  induction descs generalizing q l with
  | nil => exact ⟨q,rfl,by rwa [List.map_nil,List.append_nil]⟩
  | cons desc descs ih =>
      rw [List.length_cons] at hroom
      obtain ⟨hok,hwindow,-⟩ := h.push_window (by omega) (DescSerialize.serialize desc)
      change (q.push desc).2=true at hok
      obtain ⟨q',hq',hend⟩ := ih (q.push desc).1 hwindow (by
        rw [List.length_append,List.length_singleton]
        omega)
      refine ⟨q',?_,?_⟩
      · rw [SendQueue.pushAll,if_pos hok]
        exact hq'
      · rwa [List.map_cons,← List.append_cons] at *

/-- The tail moves up at most to the register, and after that the descriptors go in together or not
at all. -/
theorem send_window (sq : SendQueueSync) (descs : List SendQueueDesc) (C : Nat)
    (h : Window sq.sendQueue.inner.ring T l) (htail : sq.csrRing.tail.toNat=C%8192)
    (hlow : T≤C) (hhigh : C≤T+l.length) :
    ∃ T' q pushed,sq.send descs=some ({sq with sendQueue := q},pushed) ∧ T≤T' ∧ T'≤C ∧
      Window q.inner.ring T' (l.drop (T'-T)++
        if pushed then descs.map DescSerialize.serialize else []) := by
  obtain ⟨T',sq',hsync,hlow',hhigh',hcsr,hwindow⟩ : ∃ T' sq',
      (if sq.sendQueue.remaining.toNat<descs.length then sq.syncTail else sq)=sq' ∧ T≤T' ∧ T'≤C ∧
      sq'.csrRing=sq.csrRing ∧ Window sq'.sendQueue.inner.ring T' (l.drop (T'-T)) := by
    split_ifs
    · exact ⟨C,_,rfl,hlow,le_rfl,rfl,h.setTail_window C hlow hhigh _ htail⟩
    · refine ⟨T,_,rfl,le_rfl,hlow,rfl,?_⟩
      rwa [Nat.sub_self,List.drop_zero]
  have hsame (q : SendQueue) : {sq' with sendQueue := q}={sq with sendQueue := q} := by
    rw [SendQueueSync.mk.injEq]
    exact ⟨rfl,hcsr⟩
  have hrem := hwindow.remaining_toNat
  change sq'.sendQueue.remaining.toNat=_ at hrem
  by_cases hfull : sq'.sendQueue.remaining.toNat<descs.length
  · refine ⟨T',sq'.sendQueue,false,?_,hlow',hhigh',?_⟩
    · rw [SendQueueSync.send,hsync,if_pos hfull,← hsame]
    · simpa using hwindow
  · have hfits := hwindow.fits
    obtain ⟨q,hq,hend⟩ := pushAll_window sq'.sendQueue descs hwindow (by omega)
    refine ⟨T',q,true,?_,hlow',hhigh',hend⟩
    rw [SendQueueSync.send,hsync,if_neg hfull,hq,← hsame]
    rfl

/-- A chunk is pushed as its two descriptors or goes to the local queue. -/
theorem submit_window (w : SendWorker) (wr : WrChunk) (C : Nat) (h : Window (ring w) T l)
    (htail : w.sq.csrRing.tail.toNat=C%8192) (hlow : T≤C) (hhigh : C≤T+l.length) :
    ∃ T' w' pushed,w.submit wr=some (w',pushed) ∧ T≤T' ∧ T'≤C ∧
      Window (ring w') T' (l.drop (T'-T)++descriptors [(wr,pushed)]) ∧
      w'.sq.csrRing=w.sq.csrRing ∧ w'.localQueue=w.localQueue++returned [(wr,pushed)] := by
  obtain ⟨T',q,pushed,hsend,hlow',hhigh',hwindow⟩ :=
    send_window w.sq [.seg0 wr.seg0,.seg1 wr.seg1] C h htail hlow hhigh
  rw [SendWorker.submit,hsend]
  cases pushed with
  | true =>
      exact ⟨T',{w with sq := {w.sq with sendQueue := q}},true,rfl,hlow',hhigh',hwindow,rfl,
        (List.append_nil _).symm⟩
  | false =>
      exact ⟨T',{w with localQueue := w.localQueue++[wr],sq := {w.sq with sendQueue := q}},false,rfl,
        hlow',hhigh',hwindow,rfl,rfl⟩

end Submit

theorem descriptors_append (xs ys : List (WrChunk × Bool)) :
    descriptors (xs++ys)=descriptors xs++descriptors ys := List.flatMap_append

theorem returned_append (xs ys : List (WrChunk × Bool)) :
    returned (xs++ys)=returned xs++returned ys := by
  rw [returned,List.filter_append,List.map_append]
  rfl

/-- What holds in every state. -/
structure Good (s : SendSystem) : Prop where
  alive : s.panicked=false
  handed : s.handed=s.outcomes.map Prod.fst++s.pending
  returned : s.worker.localQueue=returned s.outcomes
  synced : ∃ low told,(ring s.worker).Synced s.worker.sq.csrRing.head s.worker.sq.csrRing.tail
      (descriptors s.outcomes) s.consumed low told ∧
    ((s.call=none ∨ ∃ wrs,s.call=some (wrs,false)) → told=(descriptors s.outcomes).length)

theorem init_good : Good init where
  alive := rfl
  handed := rfl
  returned := rfl
  synced := ⟨0,0,new_synced _,fun _ => rfl⟩

/-- The state after one entry of the batch. -/
theorem good_entry (s : SendSystem) (h : Good s) (wr : WrChunk) (wrs : List (Option WrChunk))
    (hasNewDesc : Bool) (hcall : s.call=some (some wr::wrs,hasNewDesc)) : Good (s.step .next) := by
  obtain ⟨hp,hhanded,hreturned,low,told,hsync,htold⟩ := h
  have hlen := hsync.low_le
  obtain ⟨low',w,pushed,hsubmit,hlow,hlow',hwindow,hcsr,hlocal⟩ :=
    submit_window s.worker wr s.consumed hsync.window hsync.tail hsync.behind (by
      rw [List.length_drop]
      have := hsync.told_ge.trans hsync.told_le
      omega)
  rw [step_next_entry s wr wrs hasNewDesc hcall hp,hsubmit]
  have hle : low' ≤ (descriptors s.outcomes).length :=
    hlow'.trans (hsync.told_ge.trans hsync.told_le)
  refine ⟨hp,?_,?_,low',told,⟨?_,?_,?_,hlow',hsync.told_ge,?_⟩,?_⟩
  · dsimp only
    rw [hhanded]
    simp [pending,hcall]
  · dsimp only
    rw [hlocal,hreturned,returned_append]
  · dsimp only
    rw [descriptors_append,List.drop_append_of_le_length hle]
    rwa [List.drop_drop,show low+(low'-low)=low' by omega] at hwindow
  · dsimp only
    rw [hcsr]
    exact hsync.tail
  · dsimp only
    rw [hcsr]
    exact hsync.head
  · dsimp only
    rw [descriptors_append,List.length_append]
    exact hsync.told_le.trans (Nat.le_add_right ..)
  · rintro (hnone|⟨wrs',hfalse⟩)
    · cases hnone
    · obtain ⟨-,hnew⟩ := Prod.mk.inj (Option.some.inj hfalse)
      obtain ⟨rfl,rfl⟩ := Bool.or_eq_false_iff.mp hnew
      rw [htold (Or.inr ⟨_,hcall⟩),descriptors_append]
      simp [descriptors]

theorem good_next (s : SendSystem) (h : Good s) : Good (s.step .next) := by
  obtain ⟨call,hcall⟩ : ∃ call,s.call=call := ⟨_,rfl⟩
  have hp := h.alive
  rcases call with _|⟨_|⟨_|wr,wrs⟩,hasNewDesc⟩
  · simpa only [step,hp,hcall,Bool.false_eq_true,if_false] using h
  · obtain ⟨-,hhanded,hreturned,low,told,hsync,htold⟩ := h
    have hstep : s.step .next={s with
        worker := if hasNewDesc then s.worker.syncHead else s.worker
        call := none} := by
      simp only [step,hp,hcall,Bool.false_eq_true,if_false]
    rw [hstep]
    have hpending : s.handed=s.outcomes.map Prod.fst++[] := by
      rw [hhanded]
      simp [pending,hcall]
    cases hasNewDesc with
    | false =>
        exact ⟨hp,hpending,hreturned,low,told,hsync,fun _ => htold (Or.inr ⟨_,hcall⟩)⟩
    | true => exact ⟨hp,hpending,hreturned,low,_,hsync.writeHead,fun _ => rfl⟩
  · obtain ⟨-,hhanded,hreturned,low,told,hsync,htold⟩ := h
    have hstep : s.step .next={s with call := some (wrs,hasNewDesc)} := by
      simp only [step,hp,hcall,Bool.false_eq_true,if_false]
    rw [hstep]
    refine ⟨hp,?_,hreturned,low,told,hsync,?_⟩
    · rw [hhanded]
      simp [pending,hcall]
    · rintro (hnone|⟨wrs',hfalse⟩)
      · cases hnone
      · obtain ⟨-,rfl⟩ := Prod.mk.inj (Option.some.inj hfalse)
        exact htold (Or.inr ⟨_,hcall⟩)
  · exact good_entry s h wr wrs hasNewDesc hcall

theorem good_step (s : SendSystem) (l : SendStep) (hl : s.Enabled l) (h : Good s) :
    Good (s.step l) := by
  cases l with
  | next => exact good_next s h
  | consume n =>
      obtain ⟨hp,hhanded,hreturned,low,told,hsync,htold⟩ := h
      exact ⟨hp,hhanded,hreturned,low,told,hsync.consume n hl,htold⟩
  | begin wrs =>
      obtain ⟨hp,hhanded,hreturned,low,told,hsync,htold⟩ := h
      refine ⟨hp,?_,hreturned,low,told,hsync,fun _ => htold (Or.inl hl)⟩
      change s.call=none at hl
      have hnil : s.pending=[] := by simp [pending,hl]
      rw [hnil,List.append_nil] at hhanded
      change s.handed++wrs.filterMap id=_
      rw [hhanded]
      rfl

theorem run_good (ls : List SendStep) (hls : Run.Along step Enabled init ls) :
    Good (Run.run step init ls) :=
  Run.run_inv step Enabled Good (fun s l hl h => good_step s l hl h) init ls hls init_good

/-- In every interleaving with the device: the assertion holds, every chunk handed to `process` is
pushed as a whole or returned once, in order, no slot the device has not passed is overwritten,
and the head register is up to date between calls. -/
theorem send_ring_whole (ls : List SendStep) (hls : Run.Along step Enabled init ls) :
    let s := Run.run step init ls
    s.panicked=false ∧
    s.handed=s.outcomes.map Prod.fst++s.pending ∧
    s.worker.localQueue=returned s.outcomes ∧
    (s.consumed ≤ (descriptors s.outcomes).length ∧
      (descriptors s.outcomes).length ≤ s.consumed+ringBufLen) ∧
    (∀ i d,s.consumed ≤ i → (descriptors s.outcomes)[i]?=some d →
      (ring s.worker).slots (i%ringBufLen)=d) ∧
    (ring s.worker).head.toNat=(descriptors s.outcomes).length%(2*ringBufLen) ∧
    (s.call=none → s.worker.sq.csrRing.head=s.worker.sq.sendQueue.head) := by
  intro s
  obtain ⟨hp,hhanded,hreturned,low,told,hring,htold⟩ : Good s := run_good ls hls
  have hlen := hring.length_le
  have hlow := hring.behind
  have hhead := hring.head_eq
  refine ⟨hp,hhanded,hreturned,⟨hring.told_ge.trans hring.told_le,?_⟩,?_,hhead,?_⟩
  · change _≤_+4096
    omega
  · exact fun i d hi hd => hring.slot_eq i d hd hi
  · intro hidle
    apply UInt32.toNat_inj.mp
    rw [hring.head,htold (Or.inl hidle)]
    change _=(ring s.worker).head.toUInt32.toNat
    rw [UInt64.toNat_toUInt32,hhead]
    omega

/-- Two chunks, between which the device takes the first. -/
def twoCalls : List SendStep :=
  [.begin [some {},none],.next,.next,.next,.consume 2,.begin [some wideChunk],.next,.next]

theorem send_ring_whole_twoCalls :
    Run.Along step Enabled init twoCalls ∧
    (descriptors (Run.run step init twoCalls).outcomes).length=4 ∧
    (Run.run step init twoCalls).worker.sq.csrRing.head=
      (Run.run step init twoCalls).worker.sq.sendQueue.head := by
  have hls : Run.Along step Enabled init twoCalls :=
    ⟨rfl,trivial,trivial,trivial,Nat.le_refl 2,rfl,trivial,trivial,trivial⟩
  exact ⟨hls,rfl,(send_ring_whole twoCalls hls).2.2.2.2.2.2 rfl⟩

end SendSystem
end BlueRdma
