import BlueRdma.Framework.Run
import BlueRdma.RdmaUtils.TrackerOp

namespace BlueRdma

/-- A call of a tracker, with the left edge before it and after it. -/
structure TrackerCall where
  before : Psn
  op : TrackerOp
  after : Psn

/-- The left edge moves over the PSN. -/
def TrackerCall.Passes (c : TrackerCall) (p : Psn) : Prop :=
  (p-c.before).toNat<(c.after-c.before).toNat

/-- One of the calls has named the PSN, and the left edge has not moved over it since. -/
def NamedSince (calls : List TrackerCall) (p : Psn) : Prop :=
  ∃ xs c ys,calls=xs++c::ys ∧ c.op.Names p ∧ ∀ d∈c::ys,¬d.Passes p

theorem namedSince_last (calls : List TrackerCall) (c : TrackerCall) (p : Psn)
    (hname : c.op.Names p) (hpass : ¬c.Passes p) : NamedSince (calls++[c]) p := by
  refine ⟨calls,c,[],rfl,hname,?_⟩
  intro d hd
  rwa [List.mem_singleton.mp hd]

theorem NamedSince.concat (calls : List TrackerCall) (c : TrackerCall) (p : Psn)
    (h : NamedSince calls p) (hpass : ¬c.Passes p) : NamedSince (calls++[c]) p := by
  obtain ⟨xs,d,ys,rfl,hname,hsince⟩ := h
  refine ⟨xs,d,ys++[c],by simp,hname,?_⟩
  intro e he
  rcases List.mem_append.mp (show e∈(d::ys)++[c] from he) with he|he
  · exact hsince e he
  · rwa [List.mem_singleton.mp he]

namespace PsnTracker

def calls (t : PsnTracker) : List TrackerOp → List TrackerCall
  | [] => []
  | op::ops => ⟨t.basePsn,op,(t.apply op).1.basePsn⟩::calls (t.apply op).1 ops

/-- The row stands for PSNs that have been named since the left edge last moved over them. -/
structure Named (earlier : List TrackerCall) (t : PsnTracker) : Prop where
  base : t.basePsn.Valid
  length : t.inner.length ≤ rowBound
  bits : ∀ i,t.inner.bit i=true → NamedSince earlier (Psn.wrap (t.basePsn.toNat+i))

/-- The call moves the left edge forward, by less than the whole circle, over PSNs that it or an
earlier call has named. -/
def Justified (earlier : List TrackerCall) (c : TrackerCall) : Prop :=
  ∃ k,k<2^24 ∧ c.after=Psn.wrap (c.before.toNat+k) ∧ ∀ i<k,
    c.op.Names (Psn.wrap (c.before.toNat+i)) ∨ NamedSince earlier (Psn.wrap (c.before.toNat+i))

theorem apply_named (earlier : List TrackerCall) (t : PsnTracker) (op : TrackerOp) (hop : op.Valid)
    (h : Named earlier t) :
    Justified earlier ⟨t.basePsn,op,(t.apply op).1.basePsn⟩ ∧
    Named (earlier++[⟨t.basePsn,op,(t.apply op).1.basePsn⟩]) (t.apply op).1 := by
  obtain ⟨k,hk⟩ := apply_advance t op h.base hop h.length
  have hshort := hk.short
  have hbound : rowBound+1<2^24 := by decide
  -- what lies at or beyond the new edge has not been passed
  have hahead : ∀ i,i+k < rowBound → ¬TrackerCall.Passes ⟨t.basePsn,op,(t.apply op).1.basePsn⟩
      (Psn.wrap (t.basePsn.toNat+(i+k))) := by
    intro i hi
    rw [TrackerCall.Passes,hk.edge,Psn.eq_wrap t.basePsn h.base,Psn.wrap_toNat,
      Nat.mod_eq_of_lt h.base,Psn.wrap_sub_wrap _ _ (by omega) (by omega),
      Psn.wrap_sub_wrap _ _ (by omega) (by omega)]
    omega
  refine ⟨⟨k,by omega,hk.edge,?_⟩,apply_valid t op h.base hop,hk.length,?_⟩
  · intro i hi
    rcases hk.passed i hi with hbit|hname
    · exact Or.inr (h.bits i hbit)
    · exact Or.inl hname
  · intro i hi
    obtain ⟨hlt,hcause⟩ := hk.kept i hi
    have hsame : Psn.wrap ((t.apply op).1.basePsn.toNat+i)=Psn.wrap (t.basePsn.toNat+(i+k)) := by
      rw [hk.edge,Psn.wrap_eq_iff,Psn.wrap_toNat]
      omega
    rw [hsame]
    rcases hcause with hbit|hname
    · exact (h.bits _ hbit).concat _ _ _ (hahead i hlt)
    · exact namedSince_last _ _ _ hname (hahead i hlt)

theorem calls_justified (earlier : List TrackerCall) (t : PsnTracker) (ops : List TrackerOp)
    (hops : ∀ op∈ops,op.Valid) (h : Named earlier t) :
    Run.Each (fun l c => Justified (earlier++l) c) (t.calls ops) := by
  induction ops generalizing earlier t with
  | nil => exact Run.each_nil _
  | cons op ops ih =>
      obtain ⟨hcall,hnext⟩ := apply_named earlier t op (hops op List.mem_cons_self) h
      have hrest := ih _ _ (fun o ho => hops o (List.mem_cons_of_mem _ ho)) hnext
      refine Run.each_append _ [_] _ (Run.each_singleton _ _ ?_) ?_
      · rw [List.append_nil]
        exact hcall
      · simpa only [List.append_assoc] using hrest

/-- In every sequence of calls of a tracker that starts with an empty row, the left edge only
moves forward, by less than the whole circle at a time, and only over PSNs that the call or an
earlier one has named since the edge last moved over them. -/
theorem passed_psns_named (t : PsnTracker) (ops : List TrackerOp) (hb : t.basePsn.Valid)
    (hrow : t.inner=[]) (hops : ∀ op∈ops,op.Valid) :
    Run.Each Justified (t.calls ops) := by
  refine calls_justified [] t ops hops ⟨hb,by rw [hrow]; exact Nat.zero_le _,?_⟩
  intro i hi
  rw [hrow] at hi
  cases hi

/-- The bitmap leaves a hole at the last PSN before the wrap, the call after it closes the hole. -/
theorem passed_psns_named_wrap :
    (calls ⟨⟨0xFFFFFE⟩,[]⟩ [.ackBitmap ⟨0xFFFFFE⟩ 0b1101#128,.ackOne ⟨0xFFFFFF⟩,
      .ackRange ⟨4⟩ ⟨6⟩,.ackBefore ⟨3⟩]).map TrackerCall.after=
        [⟨0xFFFFFF⟩,⟨2⟩,⟨2⟩,⟨3⟩] ∧
    Run.Each Justified (calls ⟨⟨0xFFFFFE⟩,[]⟩ [.ackBitmap ⟨0xFFFFFE⟩ 0b1101#128,.ackOne ⟨0xFFFFFF⟩,
      .ackRange ⟨4⟩ ⟨6⟩,.ackBefore ⟨3⟩]) :=
  ⟨by decide +kernel,passed_psns_named ⟨⟨0xFFFFFE⟩,[]⟩ [.ackBitmap ⟨0xFFFFFE⟩ 0b1101#128,
    .ackOne ⟨0xFFFFFF⟩,.ackRange ⟨4⟩ ⟨6⟩,.ackBefore ⟨3⟩] (by decide) rfl (by decide)⟩

end PsnTracker
end BlueRdma
