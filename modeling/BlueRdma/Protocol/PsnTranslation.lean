import BlueRdma.Framework.Run
import BlueRdma.RdmaUtils.TrackerOp

namespace BlueRdma

namespace TrackerOp

/-- The call with every PSN argument translated. -/
def shift (s : UInt32) : TrackerOp → TrackerOp
  | ackOne p => ackOne (p+s)
  | ackBitmap p b => ackBitmap (p+s) b
  | ackRange p q => ackRange (p+s) (q+s)
  | ackBefore p => ackBefore (p+s)

end TrackerOp

namespace PsnTracker

/-- State and return value after each call. -/
def trace (t : PsnTracker) : List TrackerOp → List (PsnTracker × Option Psn)
  | [] => []
  | op::ops => t.apply op::trace (t.apply op).1 ops

def shiftResult (s : UInt32) (r : PsnTracker × Option Psn) : PsnTracker × Option Psn :=
  (r.1.shift s,r.2.map (·+s))

/-- An argument is ahead of the edge across the wrap after the translation exactly if it
was before. -/
def SameSide (s : UInt32) (t : PsnTracker) (op : TrackerOp) : Prop :=
  ∀ p∈op.psns,Crosses (t.basePsn+s) (p+s) ↔ Crosses t.basePsn p

instance (s : UInt32) (t : PsnTracker) (op : TrackerOp) : Decidable (SameSide s t op) :=
  inferInstanceAs (Decidable (∀ _∈_,_))

theorem tryAdvance_shift (s : UInt32) (t : PsnTracker) :
    (t.shift s).tryAdvance=shiftResult s t.tryAdvance := by
  have hbase : (t.shift s).basePsn=t.basePsn+s := rfl
  rw [tryAdvance,tryAdvance,show (t.shift s).inner=t.inner from rfl]
  split_ifs
  · rfl
  · rw [hbase,Psn.add_right_comm]
    rfl

theorem ackOne_shift (s : UInt32) (t : PsnTracker) (p : Psn)
    (h : (t.shift s).rstart (p+s)=t.rstart p) :
    (t.shift s).ackOne (p+s)=shiftResult s (t.ackOne p) := by
  rw [ackOne,ackOne,h]
  split_ifs
  · exact tryAdvance_shift s
      ⟨t.basePsn,(t.inner.growTo ((t.rstart p).toNat+1)).set (t.rstart p).toNat true⟩
  · rfl

theorem ackBitmap_shift (s : UInt32) (t : PsnTracker) (p : Psn) (b : BitVec 128)
    (h : (t.shift s).rstart (p+s)=t.rstart p) :
    (t.shift s).ackBitmap (p+s) b=shiftResult s (t.ackBitmap p b) := by
  rw [ackBitmap,ackBitmap,h]
  exact tryAdvance_shift s ⟨t.basePsn,(if 0≤t.rstart p+128
    then t.inner.growTo (t.rstart p+128).toNat else t.inner).setWhere (max (t.rstart p) 0).toNat
    (t.rstart p+128).toNat (fun n => b.getLsbD ((n : Int)-t.rstart p).toNat)⟩

theorem ackBefore_shift (s : UInt32) (t : PsnTracker) (p : Psn)
    (h : (t.shift s).rstart (p+s)=t.rstart p) :
    (t.shift s).ackBefore (p+s)=shiftResult s (t.ackBefore p) := by
  rw [ackBefore,ackBefore,h]
  split_ifs <;> rfl

theorem ackRange_shift (s : UInt32) (t : PsnTracker) (p q : Psn)
    (hp : (t.shift s).rstart (p+s)=t.rstart p) (hq : (t.shift s).rstart (q+s)=t.rstart q) :
    (t.shift s).ackRange (p+s) (q+s)=shiftResult s (t.ackRange p q) := by
  have hle : p+s≤(t.shift s).basePsn ↔ p≤t.basePsn := Psn.add_le_add_iff p t.basePsn s
  rw [ackRange,ackRange,hp,hq,ackBefore_shift s t q hq]
  simp only [hle]
  split_ifs <;> rfl

theorem apply_shift (s : UInt32) (t : PsnTracker) (op : TrackerOp) (hb : t.basePsn.Valid)
    (hop : op.Valid) (h : SameSide s t op) :
    (t.shift s).apply (op.shift s)=shiftResult s (t.apply op) := by
  have hr : ∀ p∈op.psns,(t.shift s).rstart (p+s)=t.rstart p :=
    fun p hp => (rstart_shift_iff t p s hb (hop p hp)).mpr (h p hp)
  cases op with
  | ackOne p => exact ackOne_shift s t p (hr p (by simp [TrackerOp.psns]))
  | ackBitmap p b => exact ackBitmap_shift s t p b (hr p (by simp [TrackerOp.psns]))
  | ackRange p q =>
      exact ackRange_shift s t p q (hr p (by simp [TrackerOp.psns])) (hr q (by simp [TrackerOp.psns]))
  | ackBefore p => exact ackBefore_shift s t p (hr p (by simp [TrackerOp.psns]))

/-- Translation invariance of whole runs, as long as at every call the arguments cross the
wrap in both runs or in neither. -/
theorem trace_shift (t : PsnTracker) (ops : List TrackerOp) (s : UInt32) (hb : t.basePsn.Valid)
    (hops : ∀ op∈ops,op.Valid)
    (hside : Run.Along (fun t op => (PsnTracker.apply t op).1) (SameSide s) t ops) :
    (t.shift s).trace (ops.map (TrackerOp.shift s))=(t.trace ops).map (shiftResult s) := by
  induction ops generalizing t with
  | nil => rfl
  | cons op ops ih =>
      have hop := hops op (List.mem_cons_self ..)
      have hstep := apply_shift s t op hb hop hside.1
      have hrest := ih (t.apply op).1 (apply_valid t op hb hop)
        (fun o ho => hops o (List.mem_cons_of_mem _ ho)) hside.2
      rw [List.map_cons,trace,trace,List.map_cons,hstep,← hrest]
      rfl

theorem trace_shift_below_wrap :
    (({basePsn := ⟨5⟩} : PsnTracker).shift 0xFFFFF0).trace
        ([.ackOne ⟨6⟩,.ackBitmap ⟨4⟩ 3#128,.ackRange ⟨9⟩ ⟨11⟩].map (TrackerOp.shift 0xFFFFF0))=
      (({basePsn := ⟨5⟩} : PsnTracker).trace
        [.ackOne ⟨6⟩,.ackBitmap ⟨4⟩ 3#128,.ackRange ⟨9⟩ ⟨11⟩]).map (shiftResult 0xFFFFF0) :=
  trace_shift {basePsn := ⟨5⟩} [.ackOne ⟨6⟩,.ackBitmap ⟨4⟩ 3#128,.ackRange ⟨9⟩ ⟨11⟩] 0xFFFFF0
    (by decide) (by decide) (by decide +kernel)

/-- With the left edge two PSNs before the wrap, PSN 0 is two ahead and is dropped; translated
by two the same call records it. -/
theorem trace_shift_fails_across_wrap :
    (⟨0xFFFFFE⟩ : Psn).Valid ∧ (TrackerOp.ackOne ⟨0⟩).Valid ∧
    (({basePsn := ⟨0xFFFFFE⟩} : PsnTracker).shift 2).trace ([.ackOne ⟨0⟩].map (TrackerOp.shift 2))≠
      (({basePsn := ⟨0xFFFFFE⟩} : PsnTracker).trace [.ackOne ⟨0⟩]).map (shiftResult 2) := by
  decide

end PsnTracker
end BlueRdma
