import BlueRdma.Protocol.AckTimers

namespace BlueRdma
namespace RetrySchedule
open QpAckTimeoutWorker AckTimers

/-- The times at which everything was sent again since the timer was last restarted. -/
structure Episode where
  since : Nat
  fires : List Nat
  deriving DecidableEq

namespace Episode

/-- When the timer was last set. -/
def last (e : Episode) : Nat := e.fires.getLastD e.since

def fire (e : Episode) (now : Nat) : Episode := {e with fires := e.fires++[now]}

/-- Every time lies at least one interval behind the one before it. -/
def Spaced (e : Episode) (interval : Nat) : Prop :=
  List.IsChain (fun a b => a+interval≤b) (e.since::e.fires)

@[simp] theorem last_fire (e : Episode) (now : Nat) : (e.fire now).last=now := by
  rw [last,fire,List.getLastD_concat]

theorem Spaced.fire (e : Episode) (interval now : Nat) (h : e.Spaced interval)
    (hnow : e.last+interval≤now) : (e.fire now).Spaced interval := by
  apply List.IsChain.append h (List.isChain_singleton now)
  intro a ha b hb
  rw [List.head?_cons,Option.mem_some_iff] at hb
  rw [List.getLast?_cons,Option.mem_some_iff,← List.getLastD_eq_getLast?] at ha
  rw [← ha,← hb]
  exact hnow

/-- The last time lies as many intervals behind the restart as there were times. -/
theorem Spaced.last_ge (e : Episode) (interval : Nat) (h : e.Spaced interval) :
    e.since+e.fires.length*interval≤e.last := by
  obtain ⟨since,fires⟩ := e
  rw [Spaced] at h
  dsimp only [last] at *
  induction fires generalizing since with
  | nil => simp
  | cons a fires ih =>
      rw [List.isChain_cons_cons] at h
      have hrest := ih a h.2
      rw [List.length_cons,Nat.succ_mul,List.getLastD_cons]
      omega

end Episode

/-- The worker with a clock and a record: the open episodes, and the QP and the time at which it
gave up. -/
structure Tracked where
  state : AckTimers.State
  clock : Nat := 0
  episodes : QpTable (Option Episode) := fun _ => none
  gaveUp : Option (Fin maxQpCnt × Nat) := none

def start (config : AckTimeoutConfig) : Tracked := {state := AckTimers.init config}

/-- What a task makes of the episode of its QP. -/
def episodeAfter (now : Nat) (w : QpAckTimeout) (e : Option Episode) :
    AckTimeoutTask → Option Episode
  | .newAckReq => some ⟨now,[]⟩
  | .recvMeta => some ⟨now,[]⟩
  | .ack => if w.outstandingAckReqCnt-1=0 then none else e

def step (x : Tracked) (l : AckTimers.Label) : Tracked :=
  match x.state.table with
  | none => x
  | some t => match l with
    | .task now qpn task =>
        { x with
          state := AckTimers.step x.state l
          clock := now
          episodes := match QpTable.index? qpn with
            | none => x.episodes
            | some i => Function.update x.episodes i
                (episodeAfter now (t i) (x.episodes i) task) }
    | .maintainance now =>
        let r := maintainAll now (List.finRange maxQpCnt) t
        { state := AckTimers.step x.state l
          clock := now (Fin.last (maxQpCnt-1))
          episodes := fun i => if i∈r.timedOut then (x.episodes i).map (·.fire (now i))
            else x.episodes i
          gaveUp := r.exhausted.map (fun i => (i,now i)) }

theorem step_dead (x : Tracked) (l : AckTimers.Label) (h : x.state.table=none) : step x l=x := by
  rw [step,h]

theorem step_task (x : Tracked) (t : QpTable QpAckTimeout) (now : Nat) (qpn : UInt32)
    (task : AckTimeoutTask) (h : x.state.table=some t) :
    step x (.task now qpn task)=
      { x with
        state := {x.state with table := some (processTask now t qpn task)}
        clock := now
        episodes := match QpTable.index? qpn with
          | none => x.episodes
          | some i => Function.update x.episodes i
              (episodeAfter now (t i) (x.episodes i) task) } := by
  rw [step,AckTimers.step,h]

theorem step_maintainance (x : Tracked) (t : QpTable QpAckTimeout) (now : Fin maxQpCnt → Nat)
    (r : Maintained) (h : x.state.table=some t)
    (hr : maintainAll now (List.finRange maxQpCnt) t=r) :
    step x (.maintainance now)=
      { state := ⟨if r.exhausted.isSome then none else some r.table,x.state.fired++
          (r.timedOut++r.exhausted.toList).map (fun i => (i,(t i).outstandingAckReqCnt))⟩
        clock := now (Fin.last (maxQpCnt-1))
        episodes := fun i => if i∈r.timedOut then (x.episodes i).map (·.fire (now i))
          else x.episodes i
        gaveUp := r.exhausted.map (fun i => (i,now i)) } := by
  rw [step,AckTimers.step,h]
  dsimp only
  rw [hr]

/-- Clocks do not run backwards. -/
def Timed (x : Tracked) : AckTimers.Label → Prop
  | .task now _ _ => x.clock≤now
  | .maintainance now => (∀ i,x.clock≤now i) ∧ ∀ i j : Fin maxQpCnt,i≤j → now i≤now j

/-- A maintenance that takes no time. -/
theorem timed_at (x : Tracked) (now : Nat) (h : x.clock≤now) :
    Timed x (.maintainance (fun _ => now)) := ⟨fun _ => h,fun _ _ _ => Nat.le_refl now⟩

/-- The interval of a timer that is not disabled. -/
def interval (config : AckTimeoutConfig) : Nat :=
  ((4096 : UInt64)<<<config.localAckTimeoutExp.toUInt64).toNat

/-- What the timer of a QP knows of its episode. -/
structure Scheduled (config : AckTimeoutConfig) (clock : Nat) (t : TransportTimer)
    (e : Option Episode) : Prop where
  timeout : t.timeoutInterval=if config.localAckTimeoutExp=0 then none else some (interval config)
  init : t.initRetryCounter=config.initRetryCount
  start : t.lastStart=e.map Episode.last
  left : ∀ f∈e,t.currentRetryCounter+f.fires.length=config.initRetryCount
  spaced : ∀ f∈e,f.Spaced (interval config)
  past : ∀ f∈e,f.last ≤ clock

namespace Scheduled
variable (config : AckTimeoutConfig) (clock : Nat) (t : TransportTimer) (e : Option Episode)

theorem later (now : Nat) (h : Scheduled config clock t e) (hnow : clock≤now) :
    Scheduled config now t e :=
  {h with past := fun f hf => (h.past f hf).trans hnow}

theorem restart (now : Nat) (h : Scheduled config clock t e) :
    Scheduled config now (t.restart now) (some ⟨now,[]⟩) := by
  refine ⟨h.timeout,h.init,rfl,?_,?_,?_⟩
  · intro f hf
    obtain rfl := Option.some.inj hf
    exact h.init
  · intro f hf
    obtain rfl := Option.some.inj hf
    exact List.isChain_singleton now
  · intro f hf
    obtain rfl := Option.some.inj hf
    exact Nat.le_refl now

theorem stop (h : Scheduled config clock t e) : Scheduled config clock t.stop none :=
  ⟨h.timeout,h.init,rfl,by simp,by simp,by simp⟩

/-- A timer fires exactly when its episode is open and the interval is over. -/
theorem checkTimeout (now : Nat) (h : Scheduled config clock t e) :
    (t.checkTimeout now).1≠.ok ↔
      config.localAckTimeoutExp≠0 ∧ ∃ f∈e,interval config≤now-f.last := by
  rw [TransportTimer.checkTimeout,h.timeout,h.start]
  by_cases hexp : config.localAckTimeoutExp=0
  · simp [hexp]
  cases e with
  | none => simp [hexp]
  | some f =>
      simp only [if_neg hexp,Option.map_some,Option.mem_def,Option.some.injEq,exists_eq_left']
      split_ifs with hlt
      · simp [hlt]
      · simp [hexp,Nat.le_of_not_lt hlt]
      · simp [hexp,Nat.le_of_not_lt hlt]

/-- A timeout takes one of the retries that are left. -/
theorem timeout_step (now : Nat) (t' : TransportTimer) (h : Scheduled config clock t e)
    (hnow : clock≤now) (hc : t.checkTimeout now=(.timeout,t')) :
    Scheduled config now t' (e.map (·.fire now)) := by
  have hfired : (t.checkTimeout now).1≠.ok := by simp [hc]
  obtain ⟨hexp,f,hf,hwait⟩ := (h.checkTimeout config clock t e now).mp hfired
  obtain rfl : e=some f := hf
  have hlast := h.past f rfl
  have hleft := h.left f rfl
  rw [TransportTimer.checkTimeout,h.timeout,h.start,if_neg hexp] at hc
  dsimp only [Option.map_some] at hc
  rw [if_neg (Nat.not_lt.mpr hwait)] at hc
  split_ifs at hc with hzero
  · cases hc
  · cases hc
    refine ⟨(if_neg hexp).symm,h.init,?_,?_,?_,?_⟩
    · simp [TransportTimer.reset]
    · intro g hg
      obtain rfl := Option.some.inj hg
      simp only [TransportTimer.reset,Episode.fire,List.length_append,List.length_singleton]
      omega
    · intro g hg
      obtain rfl := Option.some.inj hg
      apply (h.spaced f rfl).fire
      omega
    · intro g hg
      obtain rfl := Option.some.inj hg
      rw [Episode.last_fire]

/-- Running out of retries comes one interval after the last of them. -/
theorem exhausted (now : Nat) (h : Scheduled config clock t e) (hnow : clock≤now)
    (hc : (t.checkTimeout now).1=.retryLimitExceeded) :
    ∃ f∈e,f.fires.length=config.initRetryCount ∧
      f.since+(config.initRetryCount+1)*interval config≤now := by
  have hfired : (t.checkTimeout now).1≠.ok := by simp [hc]
  obtain ⟨-,f,hf,hwait⟩ := (h.checkTimeout config clock t e now).mp hfired
  have hlast := h.past f hf
  have hleft := h.left f hf
  have hsince := (h.spaced f hf).last_ge
  have hzero : t.currentRetryCounter=0 := by
    rw [TransportTimer.checkTimeout] at hc
    split at hc
    · split_ifs at hc with hlt hzero
      exact hzero
    · cases hc
  rw [hzero,Nat.zero_add] at hleft
  refine ⟨f,hf,hleft,?_⟩
  rw [hleft] at hsince
  rw [Nat.succ_mul]
  omega

end Scheduled

/-- What the maintenance of the QPs of a list does to one QP. -/
structure MaintainedAt (now : Fin maxQpCnt → Nat) (is : List (Fin maxQpCnt))
    (t : QpTable QpAckTimeout) (r : Maintained) (i : Fin maxQpCnt) : Prop where
  kept : i∉r.timedOut → r.table i=t i
  fired : i∈r.timedOut → i∈is ∧
    (t i).timer.checkTimeout (now i)=(.timeout,(r.table i).timer)
  ended : r.exhausted=some i → i∈is ∧ i∉r.timedOut ∧
    ((t i).timer.checkTimeout (now i)).1=.retryLimitExceeded
  quiet : r.exhausted=none → i∈is → i∉r.timedOut → ((t i).timer.checkTimeout (now i)).1=.ok

theorem maintainAll_at (now : Fin maxQpCnt → Nat) (is : List (Fin maxQpCnt)) (his : is.Nodup)
    (t : QpTable QpAckTimeout) (i : Fin maxQpCnt) :
    MaintainedAt now is t (maintainAll now is t) i := by
  induction is generalizing t with
  | nil => constructor <;> simp [maintainAll]
  | cons j is ih =>
      obtain ⟨hj,his⟩ := List.nodup_cons.mp his
      rw [maintainAll]
      rcases hc : (t j).timer.checkTimeout (now j) with ⟨result,timer⟩
      cases result with
      | ok =>
          have h := ih his t
          refine ⟨h.kept,?_,?_,?_⟩
          · intro hi
            exact ⟨List.mem_cons_of_mem j (h.fired hi).1,(h.fired hi).2⟩
          · intro hi
            exact ⟨List.mem_cons_of_mem j (h.ended hi).1,(h.ended hi).2⟩
          · intro hnone hi hnot
            rcases List.mem_cons.mp hi with rfl|hi
            · rw [hc]
            · exact h.quiet hnone hi hnot
      | timeout =>
          have h := ih his (Function.update t j {t j with timer := timer})
          by_cases hij : i=j
          · subst hij
            -- the rest of the list does not visit this QP again
            have hnot : i∉(maintainAll now is
                (Function.update t i {t i with timer := timer})).timedOut :=
              fun hmem => hj (h.fired hmem).1
            have hkept := h.kept hnot
            rw [Function.update_self] at hkept
            refine ⟨by simp,?_,?_,by simp⟩
            · intro _
              exact ⟨List.mem_cons_self,by rw [hkept,hc]⟩
            · intro hended
              exact absurd (h.ended hended).1 hj
          · have hmem (l : List (Fin maxQpCnt)) : i∈j::l ↔ i∈l := by simp [hij]
            obtain ⟨hkept,hfired,hended,hquiet⟩ := h
            rw [Function.update_of_ne hij] at hkept hfired hended hquiet
            constructor
            all_goals simpa only [hmem]
      | retryLimitExceeded =>
          refine ⟨fun _ => rfl,by simp,?_,by simp⟩
          intro hi
          obtain rfl := Option.some.inj hi
          exact ⟨List.mem_cons_self,by simp,by rw [hc]⟩

theorem process_scheduled (config : AckTimeoutConfig) (clock now : Nat) (w : QpAckTimeout)
    (e : Option Episode) (task : AckTimeoutTask) (hnow : clock≤now)
    (h : Scheduled config clock w.timer e) :
    Scheduled config now ((process now w task).next.getD w).timer
      (episodeAfter now w e task) := by
  cases task with
  | newAckReq => exact h.restart config clock w.timer e now
  | recvMeta => exact h.restart config clock w.timer e now
  | ack =>
      have hlater := h.later config clock w.timer e now hnow
      dsimp only [process,Option.getD_some,episodeAfter]
      split_ifs
      · exact hlater.stop
      · exact hlater

/-- The timers as they were last seen know the episodes, and the worker is gone exactly when it has
given up on a QP. -/
structure Inv (config : AckTimeoutConfig) (x : Tracked) : Prop where
  scheduled : ∃ t : QpTable QpAckTimeout,(∀ t'∈x.state.table,t'=t) ∧
    ∀ i,Scheduled config x.clock (t i).timer (x.episodes i)
  alive : x.state.table=none ↔ x.gaveUp≠none
  limit : ∀ g∈x.gaveUp,∃ f∈x.episodes g.1,f.fires.length=config.initRetryCount ∧
    f.since+(config.initRetryCount+1)*interval config≤g.2

theorem task_inv (config : AckTimeoutConfig) (x : Tracked) (now : Nat) (qpn : UInt32)
    (task : AckTimeoutTask) (hnow : x.clock≤now) (h : Inv config x) :
    Inv config (step x (.task now qpn task)) := by
  rcases ht : x.state.table with _|t
  · rwa [step_dead x _ ht]
  obtain ⟨t0,hsame,hsched⟩ := h.scheduled
  obtain rfl := hsame t ht
  have hgave : x.gaveUp=none := by simpa [ht] using h.alive
  rw [step_task x t now qpn task ht]
  refine ⟨⟨processTask now t qpn task,by simp,fun k => ?_⟩,by simp [hgave],by simp [hgave]⟩
  rw [processTask,QpTable.mapQpMut]
  rcases QpTable.index? qpn with _|i
  · exact (hsched k).later config _ _ _ now hnow
  by_cases hk : k=i
  · subst hk
    simp only [Function.update_self]
    exact process_scheduled config x.clock now (t k) _ task hnow (hsched k)
  · simp only [Function.update_of_ne hk]
    exact (hsched k).later config _ _ _ now hnow

theorem maintainance_inv (config : AckTimeoutConfig) (x : Tracked) (now : Fin maxQpCnt → Nat)
    (hnow : Timed x (.maintainance now)) (h : Inv config x) :
    Inv config (step x (.maintainance now)) := by
  rcases ht : x.state.table with _|t
  · rwa [step_dead x _ ht]
  obtain ⟨t0,hsame,hsched⟩ := h.scheduled
  obtain rfl := hsame t ht
  obtain ⟨hclock,hmono⟩ := hnow
  have hlast (i : Fin maxQpCnt) : now i≤now (Fin.last (maxQpCnt-1)) := hmono i _ (Fin.le_last i)
  have hat := maintainAll_at now (List.finRange maxQpCnt) (List.nodup_finRange _) t
  generalize hr : maintainAll now (List.finRange maxQpCnt) t=r at hat
  rw [step_maintainance x t now r ht hr]
  refine ⟨⟨r.table,?_,?_⟩,?_,?_⟩
  · intro t' ht'
    dsimp only at ht'
    split_ifs at ht'
    · cases ht'
    · exact (Option.some.inj ht').symm
  · intro i
    dsimp only
    split_ifs with hi
    · have hfire := (hsched i).timeout_step config _ _ _ (now i) _ (hclock i) ((hat i).fired hi).2
      exact hfire.later config _ _ _ _ (hlast i)
    · rw [(hat i).kept hi]
      exact (hsched i).later config _ _ _ _ ((hclock i).trans (hlast i))
  · rcases r.exhausted with _|i <;> simp
  · intro g hg
    obtain ⟨i,hi,rfl⟩ := Option.map_eq_some_iff.mp hg
    obtain ⟨-,hnot,hlimit⟩ := (hat i).ended hi
    dsimp only
    rw [if_neg hnot]
    exact (hsched i).exhausted config _ _ _ (now i) (hclock i) hlimit

theorem step_inv (config : AckTimeoutConfig) (x : Tracked) (l : AckTimers.Label)
    (hl : Timed x l) (h : Inv config x) : Inv config (step x l) := by
  cases l with
  | task now qpn task => exact task_inv config x now qpn task hl h
  | maintainance now => exact maintainance_inv config x now hl h

theorem start_inv (config : AckTimeoutConfig) : Inv config (start config) := by
  refine ⟨⟨QpTable.newWith (new config),?_,?_⟩,by simp [start,AckTimers.init],by simp [start]⟩
  · intro t ht
    exact (Option.some.inj ht).symm
  · intro i
    exact ⟨rfl,rfl,rfl,by simp [start],by simp [start],by simp [start]⟩

theorem run_inv (config : AckTimeoutConfig) (ls : List AckTimers.Label)
    (hls : Run.Along step Timed (start config) ls) : Inv config (Run.run step (start config) ls) :=
  Run.run_inv step Timed (Inv config) (step_inv config) _ ls hls (start_inv config)

/-- The record is one of the worker itself. -/
theorem run_state (x : Tracked) (ls : List AckTimers.Label) :
    (Run.run step x ls).state=Run.run AckTimers.step x.state ls := by
  induction ls generalizing x with
  | nil => rfl
  | cons l ls ih =>
      rw [Run.run_cons,Run.run_cons,ih]
      congr 1
      rw [step,AckTimers.step]
      cases x.state.table <;> cases l <;> rfl

/-- A maintenance that the worker survives sends everything again exactly for the QPs whose
interval is over. -/
theorem maintainance_exact (config : AckTimeoutConfig) (x : Tracked) (now : Fin maxQpCnt → Nat)
    (h : Inv config x) (halive : (step x (.maintainance now)).state.table≠none)
    (i : Fin maxQpCnt) (f : Episode) (hf : x.episodes i=some f) :
    (step x (.maintainance now)).episodes i=some
      (if config.localAckTimeoutExp≠0 ∧ interval config≤now i-f.last then f.fire (now i)
        else f) := by
  rcases ht : x.state.table with _|t
  · rw [step_dead x _ ht] at halive
    exact absurd ht halive
  obtain ⟨t0,hsame,hsched⟩ := h.scheduled
  obtain rfl := hsame t ht
  have hat := maintainAll_at now (List.finRange maxQpCnt) (List.nodup_finRange _) t i
  generalize hr : maintainAll now (List.finRange maxQpCnt) t=r at hat
  have hdue := (hsched i).checkTimeout config _ _ _ (now i)
  rw [hf] at hdue
  simp only [Option.mem_def,Option.some.injEq,exists_eq_left'] at hdue
  rw [step_maintainance x t now r ht hr] at halive ⊢
  have hnone : r.exhausted=none := by
    by_contra hsome
    exact halive (if_pos (Option.isSome_iff_ne_none.mpr hsome))
  dsimp only
  rw [hf]
  by_cases hi : i∈r.timedOut
  · rw [if_pos hi,if_pos (hdue.mp (by rw [(hat.fired hi).2]; exact TimerResult.noConfusion))]
    rfl
  · have hok := hat.quiet hnone (List.mem_finRange i) hi
    rw [if_neg hi,if_neg (fun hd => hdue.mpr hd hok)]

/-- The times at which the worker looks at the timer of a QP. -/
def looks (i : Fin maxQpCnt) (ls : List AckTimers.Label) : List Nat :=
  ls.filterMap fun
    | .task _ _ _ => none
    | .maintainance now => some (now i)

/-- Nothing is heard about the QP. -/
def Silent (i : Fin maxQpCnt) : AckTimers.Label → Prop
  | .task _ qpn _ => QpTable.index? qpn≠some i
  | .maintainance _ => True

section Silence
variable (config : AckTimeoutConfig) (gap since : Nat) (i : Fin maxQpCnt)

/-- While the worker lives, the timer of a QP that is not heard of since `since` is set again
without delay, and the last look at it, at `seen`, did not come after the end of its interval. -/
def Waiting (seen : Nat) (x : Tracked) : Prop :=
  x.state.table≠none → ∃ f,x.episodes i=some f ∧
    f.last ≤ since+f.fires.length*(interval config+gap) ∧ seen≤f.last+interval config

theorem task_waiting (seen : Nat) (x : Tracked) (now : Nat) (qpn : UInt32) (task : AckTimeoutTask)
    (hqpn : QpTable.index? qpn≠some i) (h : Waiting config gap since i seen x) :
    Waiting config gap since i seen (step x (.task now qpn task)) := by
  rcases ht : x.state.table with _|t
  · rwa [step_dead x _ ht]
  intro _
  obtain ⟨f,hf,hlast,hseen⟩ := h (by simp [ht])
  refine ⟨f,?_,hlast,hseen⟩
  rw [step_task x t now qpn task ht,← hf]
  dsimp only
  rcases hk : QpTable.index? qpn with _|k
  · rfl
  · exact Function.update_of_ne (fun hik => hqpn (by rw [hk,hik])) ..

theorem maintainance_waiting (hexp : config.localAckTimeoutExp≠0) (seen : Nat) (x : Tracked)
    (now : Fin maxQpCnt → Nat) (hinv : Inv config x) (hgap : now i ≤ seen+gap)
    (h : Waiting config gap since i seen x) :
    Waiting config gap since i (now i) (step x (.maintainance now)) := by
  intro halive
  have hbefore : x.state.table≠none := by
    intro hdead
    rw [step_dead x _ hdead] at halive
    exact halive hdead
  obtain ⟨f,hf,hlast,hseen⟩ := h hbefore
  rw [maintainance_exact config x now hinv halive i f hf]
  split_ifs with hdue
  · refine ⟨f.fire (now i),rfl,?_,?_⟩
    · rw [Episode.last_fire,Episode.fire,List.length_append,List.length_singleton,Nat.succ_mul]
      omega
    · rw [Episode.last_fire]
      omega
  · have hearly : now i-f.last < interval config := by
      by_contra hlate
      exact hdue ⟨hexp,Nat.not_lt.mp hlate⟩
    exact ⟨f,rfl,hlast,by omega⟩

/-- By induction on the run, whatever the other QPs do in it. -/
theorem run_waiting (hexp : config.localAckTimeoutExp≠0) (ls : List AckTimers.Label)
    (seen : Nat) (x : Tracked) (hls : Run.Along step Timed x ls) (hsilent : ∀ l∈ls,Silent i l)
    (hlooks : List.IsChain (fun a b => b≤a+gap) (seen::looks i ls)) (hinv : Inv config x)
    (h : Waiting config gap since i seen x) :
    Waiting config gap since i ((looks i ls).getLastD seen) (Run.run step x ls) := by
  induction ls generalizing seen x with
  | nil => exact h
  | cons l ls ih =>
      have hnext := step_inv config x l hls.1 hinv
      obtain ⟨hl,hrest⟩ := List.forall_mem_cons.mp hsilent
      cases l with
      | task now qpn task =>
          exact ih seen _ hls.2 hrest hlooks hnext
            (task_waiting config gap since i seen x now qpn task hl h)
      | maintainance now =>
          have hcons : looks i (.maintainance now::ls)=now i::looks i ls := rfl
          rw [hcons,List.isChain_cons_cons] at hlooks
          rw [hcons,List.getLastD_cons]
          exact ih (now i) _ hls.2 hrest hlooks.2 hnext
            (maintainance_waiting config gap since i hexp seen x now hinv hlooks.1 h)

end Silence

end RetrySchedule

open RetrySchedule in
/-- Since the last sign of life of a QP everything is sent again at most as often as configured,
each time at least one interval after the time before, and at the first look at the timer after
the interval is over. The worker gives up only when all of the retries are used up and one more
interval has passed, and then it is gone for every QP. -/
theorem retries_bounded (config : AckTimeoutConfig) (ls : List AckTimers.Label)
    (hls : Run.Along step Timed (start config) ls) :
    (Run.run step (start config) ls).state=AckTimers.run config ls ∧
    (∀ i f,(Run.run step (start config) ls).episodes i=some f →
      f.fires.length ≤ config.initRetryCount ∧ f.Spaced (interval config)) ∧
    (∀ now,(step (Run.run step (start config) ls) (.maintainance now)).state.table≠none →
      ∀ i f,(Run.run step (start config) ls).episodes i=some f →
        (step (Run.run step (start config) ls) (.maintainance now)).episodes i=some
          (if config.localAckTimeoutExp≠0 ∧ interval config≤now i-f.last then f.fire (now i)
            else f)) ∧
    ((AckTimers.run config ls).table=none ↔ (Run.run step (start config) ls).gaveUp≠none) ∧
    ∀ i now,(Run.run step (start config) ls).gaveUp=some (i,now) →
      ∃ f,(Run.run step (start config) ls).episodes i=some f ∧
        f.fires.length=config.initRetryCount ∧
        f.since+(config.initRetryCount+1)*interval config≤now := by
  have hinv := run_inv config ls hls
  have hstate : (Run.run step (start config) ls).state=AckTimers.run config ls := run_state _ ls
  obtain ⟨t,-,hsched⟩ := hinv.scheduled
  refine ⟨hstate,?_,?_,hstate ▸ hinv.alive,?_⟩
  · intro i f hf
    have hleft := (hsched i).left f hf
    exact ⟨by omega,(hsched i).spaced f hf⟩
  · intro now halive i f hf
    exact maintainance_exact config _ now hinv halive i f hf
  · intro i now hgave
    obtain ⟨f,hf,hlen,hend⟩ := hinv.limit (i,now) hgave
    exact ⟨f,hf,hlen,hend⟩

open RetrySchedule in
/-- One retry: the message is sent again after the first interval, and after the second one the
worker gives up. -/
theorem retries_bounded_lost :
    (Run.run step (start ⟨14,1⟩) [.task 0 0x100 .newAckReq,.maintainance (fun _ => 2^26),
      .maintainance (fun _ => 2^27)]).gaveUp=some (⟨1,by decide⟩,2^27) ∧
    ∃ f,(Run.run step (start ⟨14,1⟩) [.task 0 0x100 .newAckReq,.maintainance (fun _ => 2^26),
      .maintainance (fun _ => 2^27)]).episodes ⟨1,by decide⟩=some f ∧ f.fires.length=1 ∧
      f.since+2*interval ⟨14,1⟩≤2^27 := by
  have hgave : (Run.run step (start ⟨14,1⟩) [.task 0 0x100 .newAckReq,
      .maintainance (fun _ => 2^26),.maintainance (fun _ => 2^27)]).gaveUp=
        some (⟨1,by decide⟩,2^27) := by decide +kernel
  have hclock : (step (step (start ⟨14,1⟩) (.task 0 0x100 .newAckReq))
      (.maintainance (fun _ => 2^26))).clock≤2^27 := by decide +kernel
  have htimed : Run.Along step Timed (start ⟨14,1⟩) [.task 0 0x100 .newAckReq,
      .maintainance (fun _ => 2^26),.maintainance (fun _ => 2^27)] :=
    ⟨Nat.le_refl 0,timed_at _ _ (Nat.zero_le _),timed_at _ _ hclock,trivial⟩
  exact ⟨hgave,(retries_bounded ⟨14,1⟩ _ htimed).2.2.2.2 _ _ hgave⟩

open RetrySchedule in
/-- A QP that is not heard of after a request for an acknowledgement ends the worker, and with it
the timers of all QPs, in bounded time: if the worker looks at its timers at most `gap` apart, it is
gone when it has looked later than all retries and gaps can take, whatever the other QPs do. -/
theorem silent_qp_ends_worker (config : AckTimeoutConfig) (hexp : config.localAckTimeoutExp≠0)
    (gap : Nat) (ls ms : List AckTimers.Label) (since : Nat) (qpn : UInt32) (i : Fin maxQpCnt)
    (hi : QpTable.index? qpn=some i)
    (hls : Run.Along step Timed (start config) (ls++.task since qpn .newAckReq::ms))
    (hsilent : ∀ l∈ms,Silent i l)
    (hlooks : List.IsChain (fun a b => b≤a+gap) (since::looks i ms))
    (hlate : since+(config.initRetryCount+1)*interval config+config.initRetryCount*gap<
      (looks i ms).getLastD since) :
    (AckTimers.run config (ls++.task since qpn .newAckReq::ms)).table=none := by
  rw [Run.along_append] at hls
  obtain ⟨hbefore,htask,hafter⟩ := hls
  have hinv := run_inv config ls hbefore
  generalize hx : Run.run step (start config) ls=x at htask hafter hinv
  have hstep := step_inv config x _ htask hinv
  have hstart : Waiting config gap since i since (step x (.task since qpn .newAckReq)) := by
    rcases ht : x.state.table with _|t
    · rw [step_dead x _ ht]
      exact fun halive => absurd ht halive
    intro _
    refine ⟨⟨since,[]⟩,?_,Nat.le_add_right ..,Nat.le_add_right ..⟩
    rw [step_task x t since qpn .newAckReq ht]
    dsimp only
    rw [hi]
    exact Function.update_self ..
  have hwait := run_waiting config gap since i hexp ms since _ hafter hsilent hlooks hstep hstart
  have hend := Run.run_inv step Timed (Inv config) (step_inv config) _ ms hafter hstep
  have hstate : (Run.run step (start config) (ls++.task since qpn .newAckReq::ms)).state=
      AckTimers.run config (ls++.task since qpn .newAckReq::ms) := run_state _ _
  rw [← hstate,Run.run_append,hx,Run.run_cons]
  by_contra halive
  obtain ⟨f,hf,hlast,hseen⟩ := hwait halive
  obtain ⟨t,-,hsched⟩ := hend.scheduled
  have hleft := (hsched i).left f hf
  have hfires : f.fires.length*(interval config+gap)≤
      config.initRetryCount*(interval config+gap) := Nat.mul_le_mul_right _ (by omega)
  rw [Nat.mul_add config.initRetryCount] at hfires
  rw [Nat.succ_mul] at hlate
  omega

open RetrySchedule in
/-- Two QPs wait for acknowledgements and only one of them is heard of: with one retry of 2^26 ns,
and as much between two looks, the worker is gone for both. -/
theorem silent_qp_ends_worker_other_heard :
    (AckTimers.run ⟨14,1⟩ ([.task 0 0x200 .newAckReq]++.task 0 0x100 .newAckReq::
      [.maintainance (fun _ => 2^26),.task (2^26) 0x200 .recvMeta,.maintainance (fun _ => 2^27),
        .maintainance (fun _ => 3*2^26),.maintainance (fun _ => 2^28)])).table=none := by
  have htimed : Run.Along step Timed (start ⟨14,1⟩) ([.task 0 0x200 .newAckReq]++
      .task 0 0x100 .newAckReq::[.maintainance (fun _ => 2^26),.task (2^26) 0x200 .recvMeta,
        .maintainance (fun _ => 2^27),.maintainance (fun _ => 3*2^26),
        .maintainance (fun _ => 2^28)]) := by
    refine ⟨Nat.le_refl 0,Nat.le_refl 0,timed_at _ _ (Nat.zero_le _),Nat.le_of_ble_eq_true ?_,
      timed_at _ _ ?_,timed_at _ _ ?_,timed_at _ _ ?_,trivial⟩
    all_goals decide +kernel
  exact silent_qp_ends_worker ⟨14,1⟩ (by decide) (2^26) [.task 0 0x200 .newAckReq] _ 0 0x100
    ⟨1,by decide⟩ (by decide) htimed (by simp [Silent]; decide) (by simp [looks])
    (by decide +kernel)

end BlueRdma
