import BlueRdma.RdmaUtils.PsnTracker

namespace BlueRdma

inductive TrackerOp
  | ackOne (psn : Psn)
  | ackBitmap (nowPsn : Psn) (bitmap : BitVec 128)
  | ackRange (psnLow psnHigh : Psn)
  | ackBefore (psn : Psn)

namespace TrackerOp

def psns : TrackerOp → List Psn
  | ackOne p => [p]
  | ackBitmap p _ => [p]
  | ackRange p q => [p,q]
  | ackBefore p => [p]

def Valid (op : TrackerOp) : Prop := ∀ p∈op.psns,p.Valid

instance (op : TrackerOp) : Decidable op.Valid := inferInstanceAs (Decidable (∀ _∈_,_))

/-- The PSNs a call acknowledges: one, those of the set bits, those from the lower end of a
range up to its upper end on the circle, or all before the argument. -/
def Names : TrackerOp → Psn → Prop
  | ackOne q,p => p=q
  | ackBitmap q b,p => ∃ j : Nat,j<128 ∧ b.getLsbD j=true ∧ p=q+UInt32.ofNat j
  | ackRange lo hi,p => (p-lo).toNat<(hi-lo).toNat
  | ackBefore q,p => p<q

end TrackerOp

namespace PsnTracker

def apply (t : PsnTracker) : TrackerOp → PsnTracker × Option Psn
  | .ackOne p => t.ackOne p
  | .ackBitmap p b => t.ackBitmap p b
  | .ackRange p q => t.ackRange p q
  | .ackBefore p => t.ackBefore p

theorem apply_reports (t : PsnTracker) (op : TrackerOp) (hop : op.Valid) :
    Reports t (t.apply op) := by
  cases op with
  | ackOne p => exact ackOne_reports t p
  | ackBitmap p b => exact ackBitmap_reports t p b
  | ackRange p q => exact ackRange_reports t p q (hop q (by simp [TrackerOp.psns]))
  | ackBefore p => exact ackBefore_reports t p (hop p (by simp [TrackerOp.psns]))

theorem apply_valid (t : PsnTracker) (op : TrackerOp) (hb : t.basePsn.Valid) (hop : op.Valid) :
    (t.apply op).1.basePsn.Valid :=
  (apply_reports t op hop).valid hb

/-- Where a cumulative acknowledgement puts the left edge: a range from the edge or before it
counts as one. -/
def upto (t : PsnTracker) : TrackerOp → Option Psn
  | .ackBefore p => some p
  | .ackRange lo hi => if lo≤t.basePsn then some hi else none
  | .ackOne _ | .ackBitmap _ _ => none

theorem upto_mem (t : PsnTracker) (op : TrackerOp) (p : Psn) (h : t.upto op=some p) :
    p∈op.psns := by
  unfold upto at h
  split at h
  · exact Option.some.inj h ▸ List.mem_singleton_self _
  · split_ifs at h
    exact Option.some.inj h ▸ List.mem_cons_of_mem _ (List.mem_singleton_self _)
  · cases h
  · cases h

/-- The call sets bit `i` of the row. -/
def Marks (t : PsnTracker) : TrackerOp → Nat → Prop
  | .ackOne p,i => (i : Int)=t.rstart p
  | .ackBitmap q b,i =>
    t.rstart q ≤ i ∧ i<t.rstart q+128 ∧ b.getLsbD ((i : Int)-t.rstart q).toNat=true
  | .ackRange lo hi,i => ¬lo≤t.basePsn ∧ 0≤t.rstart lo ∧ t.rstart lo ≤ i ∧ i<t.rstart hi
  | .ackBefore _,_ => False

/-- No call reaches further ahead of the left edge than half the PSN space and one bitmap. -/
def rowBound : Nat := 2^23+127

/-- What a call does: a cumulative acknowledgement moves the edge to its end, the others mark
bits, and all of these but `ack_range` move the edge over the run of set bits. -/
inductive Effect (t : PsnTracker) (op : TrackerOp) : PsnTracker × Option Psn → Prop
  | cumulative (p : Psn) (inner : BitRow) (hupto : t.upto op=some p) (hahead : 0≤t.rstart p)
      (hbits : ∀ i,inner.bit i=t.inner.bit (i+(t.rstart p).toNat))
      (hlen : inner.length=t.inner.length) : Effect t op (⟨p,inner⟩,some p)
  | marked (row : BitRow) (hupto : t.upto op=none)
      (hbits : ∀ i,row.bit i=true ↔ t.inner.bit i=true ∨ t.Marks op i)
      (hlen : row.length ≤ max t.inner.length rowBound) : Effect t op (tryAdvance {t with inner := row})
  | silent (row : BitRow) (hbehind : ∀ p,t.upto op=some p → t.rstart p<0)
      (hbits : ∀ i,row.bit i=true ↔ t.inner.bit i=true ∨ t.Marks op i)
      (hedge : ¬t.Marks op 0)
      (hlen : row.length ≤ max t.inner.length rowBound) : Effect t op ({t with inner := row},none)

/-- On the circle the signed distance leads from the left edge to the PSN. -/
theorem rstart_mod (t : PsnTracker) (psn : Psn) (hb : t.basePsn.Valid) (hp : psn.Valid) :
    ((t.basePsn.toNat : Int)+t.rstart psn)%2^24=psn.toNat := by
  rcases Nat.lt_or_ge psn.toNat t.basePsn.toNat with h|h
  · simp only [Psn.Valid] at hb hp
    rw [rstart_below t psn hb h]
    omega
  · rw [rstart_ahead t psn hp h]
    simp only [Psn.Valid] at hb hp
    split_ifs <;> omega

theorem rstart_bounds (t : PsnTracker) (psn : Psn) (hb : t.basePsn.Valid) (hp : psn.Valid) :
    -2^24<t.rstart psn ∧ t.rstart psn<2^23 := by
  rcases Nat.lt_or_ge psn.toNat t.basePsn.toNat with h|h
  · simp only [Psn.Valid] at hb hp
    rw [rstart_below t psn hb h]
    omega
  · rw [rstart_ahead t psn hp h]
    simp only [Psn.Valid] at hb hp
    split_ifs <;> omega

/-- A PSN that is not behind the left edge is the one its distance leads to. -/
theorem wrap_rstart (t : PsnTracker) (psn : Psn) (hb : t.basePsn.Valid) (hp : psn.Valid)
    (h : 0≤t.rstart psn) : Psn.wrap (t.basePsn.toNat+(t.rstart psn).toNat)=psn := by
  have hmod := rstart_mod t psn hb hp
  apply Psn.ext_toNat
  rw [Psn.wrap_toNat]
  omega

theorem rstart_eq_zero (t : PsnTracker) (psn : Psn) (hb : t.basePsn.Valid) (hp : psn.Valid) :
    t.rstart psn=0 ↔ psn=t.basePsn := by
  constructor
  · intro h
    have hwrap := wrap_rstart t psn hb hp h.ge
    rw [h,Int.toNat_zero,Nat.add_zero,← Psn.eq_wrap _ hb] at hwrap
    exact hwrap.symm
  · rintro rfl
    rw [rstart_ahead t _ hb le_rfl,Nat.sub_self]
    rfl

theorem ackOne_effect (t : PsnTracker) (psn : Psn) (hb : t.basePsn.Valid) (hp : psn.Valid) :
    Effect t (.ackOne psn) (t.ackOne psn) := by
  have hbound := (rstart_bounds t psn hb hp).2
  unfold ackOne
  split_ifs with h
  · refine .marked _ rfl ?_ ?_
    · intro i
      rw [bit_ackOne,Bool.or_eq_true,decide_eq_true_eq,or_comm,Marks]
      exact or_congr_right (by omega)
    · rw [List.length_set,BitRow.length_growTo,rowBound]
      omega
  · refine .silent t.inner ?_ ?_ ?_ (le_max_left ..)
    · intro p hp
      cases hp
    · intro i
      exact ⟨Or.inl,fun hi => hi.resolve_right (by rw [Marks]; omega)⟩
    · rw [Marks]
      omega

/-- A bitmap marks the row and advances; it sets at most one bit for each of its own. -/
theorem ackBitmap_row (t : PsnTracker) (psn : Psn) (b : BitVec 128) (hb : t.basePsn.Valid)
    (hp : psn.Valid) :
    ∃ row : BitRow,t.ackBitmap psn b=tryAdvance {t with inner := row} ∧
      (∀ i,row.bit i=true ↔ t.inner.bit i=true ∨ t.Marks (.ackBitmap psn b) i) ∧
      row.length ≤ max t.inner.length rowBound ∧ row.ones≤t.inner.ones+128 := by
  have hbound := (rstart_bounds t psn hb hp).2
  unfold ackBitmap
  dsimp only
  refine ⟨_,rfl,?_,?_,?_⟩
  · intro i
    rw [BitRow.bit_setWhere]
    · refine or_congr (by split_ifs <;> simp) ?_
      rw [Marks]
      exact ⟨fun hi => ⟨by omega,by omega,hi.2.2⟩,fun hi => ⟨by omega,by omega,hi.2.2⟩⟩
    · split_ifs with hend
      · rw [BitRow.length_growTo]
        omega
      · omega
  · rw [BitRow.length_setWhere,rowBound]
    split_ifs
    · rw [BitRow.length_growTo]
      omega
    · omega
  · refine (BitRow.ones_setWhere_le ..).trans (Nat.add_le_add ?_ (by omega))
    split_ifs
    · exact (BitRow.ones_growTo ..).le
    · exact le_rfl

theorem ackBitmap_effect (t : PsnTracker) (psn : Psn) (b : BitVec 128) (hb : t.basePsn.Valid)
    (hp : psn.Valid) : Effect t (.ackBitmap psn b) (t.ackBitmap psn b) := by
  obtain ⟨row,heq,hbits,hlen,-⟩ := ackBitmap_row t psn b hb hp
  rw [heq]
  exact .marked row rfl hbits hlen

theorem ackBefore_effect (t : PsnTracker) (op : TrackerOp) (psn : Psn)
    (hop : t.upto op=some psn) (hmarks : ∀ i,¬t.Marks op i) : Effect t op (t.ackBefore psn) := by
  unfold ackBefore
  split_ifs with h
  · refine .cumulative psn _ hop h ?_ ?_
    · intro i
      split_ifs with hlen
      · rw [BitRow.bit_fillFalse,BitRow.bit_of_length_le _ _ (by omega)]
      · rw [BitRow.bit_shiftLeft]
    · split_ifs
      · rw [BitRow.fillFalse,List.length_replicate]
      · rw [BitRow.length_shiftLeft]
  · refine .silent t.inner ?_ ?_ (hmarks 0) (le_max_left ..)
    · intro p hp
      obtain rfl := Option.some.inj (hop.symm.trans hp)
      omega
    · intro i
      exact ⟨Or.inl,fun hi => hi.resolve_right (hmarks i)⟩

theorem ackRange_effect (t : PsnTracker) (lo hi : Psn) (hb : t.basePsn.Valid) (hlo : lo.Valid)
    (hhi : hi.Valid) : Effect t (.ackRange lo hi) (t.ackRange lo hi) := by
  have hbound := (rstart_bounds t hi hb hhi).2
  unfold ackRange
  split_ifs with hle h
  · exact ackBefore_effect t _ hi (if_pos hle) (fun i hi => hi.1 hle)
  · refine .silent _ ?_ ?_ ?_ ?_
    · intro p hp
      rw [upto,if_neg hle] at hp
      cases hp
    · intro i
      rw [BitRow.bit_setWhere]
      · refine or_congr (by rw [BitRow.bit_growTo]) ?_
        rw [Marks]
        exact ⟨fun hi => ⟨hle,h.1,by omega,by omega⟩,fun hi => ⟨by omega,by omega,rfl⟩⟩
      · rw [BitRow.length_growTo]
        omega
    · -- the lower end is ahead of the edge, so the edge itself is not in the range
      rintro ⟨-,h0,hstart,-⟩
      have hlow := (rstart_eq_zero t lo hb hlo).mp (by omega)
      refine hle ?_
      rw [hlow]
      change Psn.cmp _ _≠.gt
      rw [Psn.cmp,UInt32.sub_self]
      decide
    · rw [BitRow.length_setWhere,BitRow.length_growTo,rowBound]
      omega
  · refine .silent t.inner ?_ ?_ ?_ (le_max_left ..)
    · intro p hp
      rw [upto,if_neg hle] at hp
      cases hp
    · intro i
      refine ⟨Or.inl,fun hi => hi.resolve_right ?_⟩
      rintro ⟨-,h0,h1,h2⟩
      exact h ⟨h0,by omega⟩
    · rintro ⟨-,h0,h1,h2⟩
      exact h ⟨h0,by omega⟩

theorem apply_effect (t : PsnTracker) (op : TrackerOp) (hb : t.basePsn.Valid) (hop : op.Valid) :
    Effect t op (t.apply op) := by
  cases op with
  | ackOne p => exact ackOne_effect t p hb (hop p (by simp [TrackerOp.psns]))
  | ackBitmap p b => exact ackBitmap_effect t p b hb (hop p (by simp [TrackerOp.psns]))
  | ackRange p q =>
      exact ackRange_effect t p q hb (hop p (by simp [TrackerOp.psns])) (hop q (by simp [TrackerOp.psns]))
  | ackBefore p => exact ackBefore_effect t _ p rfl (fun i hi => hi)

/-- A bit that a call sets stands for a PSN the call names. -/
theorem Marks.names (t : PsnTracker) (op : TrackerOp) (i : Nat) (hb : t.basePsn.Valid)
    (hop : op.Valid) (h : t.Marks op i) :
    op.Names (Psn.wrap (t.basePsn.toNat+i)) ∧ i < rowBound := by
  rw [rowBound]
  cases op with
  | ackOne p =>
      have hp := hop p (by simp [TrackerOp.psns])
      have hbound := (rstart_bounds t p hb hp).2
      have hwrap := wrap_rstart t p hb hp (by rw [← show (i : Int)=t.rstart p from h]; omega)
      rw [← show (i : Int)=t.rstart p from h,Int.toNat_natCast] at hwrap
      exact ⟨hwrap,by rw [← show (i : Int)=t.rstart p from h] at hbound; omega⟩
  | ackBitmap p b =>
      have hp := hop p (by simp [TrackerOp.psns])
      have hbound := (rstart_bounds t p hb hp).2
      have hmod := rstart_mod t p hb hp
      obtain ⟨hlo,hhi,hbit⟩ := h
      refine ⟨⟨_,by omega,hbit,?_⟩,by omega⟩
      apply Psn.ext_toNat
      rw [Psn.wrap_toNat,Psn.add_toNat,UInt32.toNat_ofNat_of_lt' (show _<2^32 by omega)]
      omega
  | ackRange lo hi =>
      have hlo := hop lo (by simp [TrackerOp.psns])
      have hhi := hop hi (by simp [TrackerOp.psns])
      obtain ⟨-,h0,hstart,hend⟩ := h
      have hbound := (rstart_bounds t hi hb hhi).2
      have hwlo := wrap_rstart t lo hb hlo h0
      have hwhi := wrap_rstart t hi hb hhi (by omega)
      refine ⟨?_,by omega⟩
      change (_-lo).toNat<(hi-lo).toNat
      rw [← hwlo,← hwhi,Psn.wrap_sub_wrap _ _ (by omega) (by omega),
        Psn.wrap_sub_wrap _ _ (by omega) (by omega)]
      omega
  | ackBefore p => exact h.elim

/-- A cumulative acknowledgement names all PSNs from the left edge up to its end. -/
theorem upto_names (t : PsnTracker) (op : TrackerOp) (p : Psn) (i : Nat) (hb : t.basePsn.Valid)
    (hop : op.Valid) (h : t.upto op=some p) (hlt : (i : Int)<t.rstart p) :
    op.Names (Psn.wrap (t.basePsn.toNat+i)) := by
  cases op with
  | ackOne q => cases h
  | ackBitmap q b => cases h
  | ackBefore q =>
      obtain rfl := Option.some.inj h
      have hq := hop q (by simp [TrackerOp.psns])
      have hbound := (rstart_bounds t q hb hq).2
      have hwrap := wrap_rstart t q hb hq (by omega)
      change _<q
      rw [← hwrap,Psn.wrap_lt _ _ (by omega) (by omega)]
      omega
  | ackRange lo hi =>
      rw [upto] at h
      split_ifs at h with hle
      obtain rfl := Option.some.inj h
      have hlo := hop lo (by simp [TrackerOp.psns])
      have hq := hop hi (by simp [TrackerOp.psns])
      have hbound := (rstart_bounds t hi hb hq).2
      have hwrap := wrap_rstart t hi hb hq (by omega)
      obtain ⟨e,he,hbase⟩ := Psn.ahead_of_le lo t.basePsn hb hlo hle
      have hmod : t.basePsn.toNat=(lo.toNat+e)%2^24 := by rw [hbase,Psn.wrap_toNat]
      have hdist : ∀ j<2^23,(Psn.wrap (t.basePsn.toNat+j)-lo).toNat=e+j := by
        intro j hj
        have hsame : Psn.wrap (t.basePsn.toNat+j)=Psn.wrap (lo.toNat+(e+j)) := by
          rw [Psn.wrap_eq_iff]
          omega
        have hsub := Psn.wrap_sub_wrap (lo.toNat+(e+j)) lo.toNat (by omega) (by omega)
        rw [← Psn.eq_wrap lo hlo] at hsub
        rw [hsame,hsub]
        omega
      change (_-lo).toNat<(hi-lo).toNat
      rw [← hwrap,hdist i (by omega),hdist _ (by omega)]
      omega

/-- The run of set bits is what the edge moves over. -/
theorem tryAdvance_eq (t : PsnTracker) (hb : t.basePsn.Valid) (hlen : t.inner.length ≤ rowBound) :
    t.tryAdvance.1.basePsn=Psn.wrap (t.basePsn.toNat+t.inner.leadingOnes) ∧
    (∀ i,t.tryAdvance.1.inner.bit i=t.inner.bit (i+t.inner.leadingOnes)) ∧
    t.tryAdvance.1.inner.length=t.inner.length ∧
    (t.tryAdvance.2.isSome=true ↔ t.inner.leadingOnes≠0) ∧
    t.tryAdvance.1.inner.ones+t.inner.leadingOnes=t.inner.ones := by
  have hle := t.inner.leadingOnes_le_length
  rw [rowBound] at hlen
  unfold tryAdvance
  dsimp only
  split_ifs with hpos
  · rw [hpos,Nat.add_zero,← Psn.eq_wrap _ hb]
    exact ⟨rfl,fun _ => rfl,rfl,by simp,rfl⟩
  · refine ⟨?_,fun i => BitRow.bit_shiftLeft ..,BitRow.length_shiftLeft ..,by simp [hpos],
      BitRow.ones_shiftLeft_leadingOnes ..⟩
    dsimp only
    nth_rewrite 1 [Psn.eq_wrap t.basePsn hb]
    rw [Psn.wrap_add,UInt32.toNat_ofNat_of_lt' (show _<2^32 by omega)]

/-- The left edge moves over PSNs that had their bit set or that the call names, and every bit
that is set afterwards had been set or stands for a PSN the call names. -/
structure Advance (t : PsnTracker) (op : TrackerOp) (t' : PsnTracker) (k : Nat) : Prop where
  edge : t'.basePsn=Psn.wrap (t.basePsn.toNat+k)
  passed : ∀ i<k,t.inner.bit i=true ∨ op.Names (Psn.wrap (t.basePsn.toNat+i))
  kept : ∀ i,t'.inner.bit i=true → i+k < rowBound ∧
    (t.inner.bit (i+k)=true ∨ op.Names (Psn.wrap (t.basePsn.toNat+(i+k))))
  short : k ≤ rowBound
  length : t'.inner.length ≤ rowBound

theorem apply_advance (t : PsnTracker) (op : TrackerOp) (hb : t.basePsn.Valid) (hop : op.Valid)
    (hlen : t.inner.length ≤ rowBound) : ∃ k,Advance t op (t.apply op).1 k := by
  have hold : ∀ i,t.inner.bit i=true → i < rowBound := by
    intro i hi
    by_contra hge
    rw [BitRow.bit_of_length_le _ _ (by omega)] at hi
    cases hi
  have hnew : ∀ (row : BitRow) (i : Nat),
      (∀ i,row.bit i=true ↔ t.inner.bit i=true ∨ t.Marks op i) → row.bit i=true →
      i < rowBound ∧ (t.inner.bit i=true ∨ op.Names (Psn.wrap (t.basePsn.toNat+i))) := by
    intro row i hbits hi
    rcases (hbits i).mp hi with hi|hi
    · exact ⟨hold i hi,Or.inl hi⟩
    · have hnames := hi.names t op i hb hop
      exact ⟨hnames.2,Or.inr hnames.1⟩
  have heffect := apply_effect t op hb hop
  generalize t.apply op=r at heffect ⊢
  rcases heffect with ⟨p,inner,hupto,hahead,hbits,hinner⟩|
    ⟨row,-,hbits,hrow⟩|⟨row,-,hbits,-,hrow⟩
  · have hp := hop p (upto_mem t op p hupto)
    have hbound := (rstart_bounds t p hb hp).2
    refine ⟨(t.rstart p).toNat,(wrap_rstart t p hb hp hahead).symm,?_,?_,?_,?_⟩
    · intro i hi
      exact Or.inr (upto_names t op p i hb hop hupto (by omega))
    · intro i hi
      have hbit : t.inner.bit (i+(t.rstart p).toNat)=true := by rw [← hbits]; exact hi
      exact ⟨hold _ hbit,Or.inl hbit⟩
    · rw [rowBound]
      omega
    · exact hinner.trans_le hlen
  · have hshort : row.length ≤ rowBound := hrow.trans (max_le hlen le_rfl)
    obtain ⟨hedge,hshift,hlength,-⟩ := tryAdvance_eq {t with inner := row} hb hshort
    refine ⟨row.leadingOnes,hedge,?_,?_,row.leadingOnes_le_length.trans hshort,hlength.trans_le hshort⟩
    · intro i hi
      exact (hnew row i hbits (row.bit_of_lt_leadingOnes i hi)).2
    · intro i hi
      rw [hshift] at hi
      exact hnew row _ hbits hi
  · refine ⟨0,Psn.eq_wrap _ hb,?_,?_,Nat.zero_le _,hrow.trans (max_le hlen le_rfl)⟩
    · intro i hi
      omega
    · intro i hi
      exact hnew row i hbits hi

/-- Several calls in a row, with the report of the last one that has one. -/
def applyAll (t : PsnTracker) : List TrackerOp → PsnTracker × Option Psn
  | [] => (t,none)
  | op::ops => ((applyAll (t.apply op).1 ops).1,(applyAll (t.apply op).1 ops).2.or (t.apply op).2)

theorem applyAll_reports (t : PsnTracker) (ops : List TrackerOp) (hops : ∀ op∈ops,op.Valid) :
    Reports t (t.applyAll ops) := by
  induction ops generalizing t with
  | nil => exact reports_none t
  | cons op ops ih =>
      exact (apply_reports t op (hops op List.mem_cons_self)).trans _ _ _
        (ih (t.apply op).1 (fun o ho => hops o (List.mem_cons_of_mem _ ho)))

/-- What holds of every tracker that calls have led to. -/
structure Sound (t : PsnTracker) : Prop where
  base : t.basePsn.Valid
  length : t.inner.length ≤ rowBound

theorem init_sound : Sound {} := ⟨by decide,Nat.zero_le _⟩

theorem apply_sound (t : PsnTracker) (op : TrackerOp) (hop : op.Valid) (h : Sound t) :
    Sound (t.apply op).1 := by
  obtain ⟨k,hk⟩ := apply_advance t op h.base hop h.length
  exact ⟨apply_valid t op h.base hop,hk.length⟩

theorem applyAll_sound (t : PsnTracker) (ops : List TrackerOp) (hops : ∀ op∈ops,op.Valid)
    (h : Sound t) : Sound (t.applyAll ops).1 := by
  induction ops generalizing t with
  | nil => exact h
  | cons op ops ih =>
      exact ih _ (fun o ho => hops o (List.mem_cons_of_mem _ ho))
        (apply_sound t op (hops op List.mem_cons_self) h)

end PsnTracker

/-- The operations of the receive-side tracker. -/
inductive LocalAckOp
  | ackOne (psn : Psn)
  | ackBitmap (basePsn : Psn) (bitmap : BitVec 128)
  | nakBitmap (psnPre : Psn) (preBitmap : BitVec 128) (psnNow : Psn) (nowBitmap : BitVec 128)

namespace LocalAckOp

def Valid : LocalAckOp → Prop
  | ackOne p => p.Valid
  | ackBitmap p _ => p.Valid
  | nakBitmap p _ q _ => p.Valid ∧ q.Valid

end LocalAckOp

namespace LocalAckTracker

def apply (t : LocalAckTracker) : LocalAckOp → LocalAckTracker × Option Psn
  | .ackOne p => t.ackOne p
  | .ackBitmap p b => t.ackBitmap p b
  | .nakBitmap p b q c => t.nakBitmap p b q c

/-- The calls of the inner tracker an operation makes. -/
def calls (t : LocalAckTracker) : LocalAckOp → List TrackerOp
  | .ackOne p => [.ackOne p]
  | .ackBitmap p b => [.ackRange t.psnPre p,.ackBitmap p b]
  | .nakBitmap p b q c => [.ackRange t.psnPre p,.ackBitmap p b,.ackBitmap q c]

theorem apply_eq (t : LocalAckTracker) (op : LocalAckOp) :
    ((t.apply op).1.psnTracker,(t.apply op).2)=t.psnTracker.applyAll (t.calls op) := by
  cases op with
  | ackOne p => simp only [apply,ackOne,calls,PsnTracker.applyAll,PsnTracker.apply,Option.none_or]
  | ackBitmap p b =>
      simp only [apply,ackBitmap,calls,PsnTracker.applyAll,PsnTracker.apply,Option.none_or]
  | nakBitmap p b q c =>
      simp only [apply,nakBitmap,calls,PsnTracker.applyAll,PsnTracker.apply,Option.none_or]

structure Sound (t : LocalAckTracker) : Prop where
  tracker : t.psnTracker.Sound
  psnPre : t.psnPre.Valid

theorem calls_valid (t : LocalAckTracker) (op : LocalAckOp) (hop : op.Valid) (hp : t.psnPre.Valid) :
    ∀ o∈t.calls op,o.Valid := by
  cases op with
  | ackOne p => simpa [calls,TrackerOp.Valid,TrackerOp.psns,LocalAckOp.Valid] using hop
  | ackBitmap p b => simpa [calls,TrackerOp.Valid,TrackerOp.psns,hp,LocalAckOp.Valid] using hop
  | nakBitmap p b q c => simpa [calls,TrackerOp.Valid,TrackerOp.psns,hp,LocalAckOp.Valid] using hop

theorem apply_sound (t : LocalAckTracker) (op : LocalAckOp) (hop : op.Valid) (h : Sound t) :
    Sound (t.apply op).1 := by
  have htracker := PsnTracker.applyAll_sound _ _ (calls_valid t op hop h.psnPre) h.tracker
  rw [← t.apply_eq op] at htracker
  refine ⟨htracker,?_⟩
  cases op with
  | ackOne p => exact h.psnPre
  | ackBitmap p b =>
      simp only [apply,ackBitmap]
      split_ifs
      · exact hop
      · exact h.psnPre
  | nakBitmap p b q c =>
      simp only [apply,nakBitmap]
      split_ifs
      · exact hop.2
      · exact h.psnPre

end LocalAckTracker

/-- The operations of the send-side tracker. -/
inductive RemoteAckOp
  | ackBefore (psn : Psn)
  | nakBitmap (msn : UInt16) (psnPre : Psn) (preBitmap : BitVec 128) (psnNow : Psn)
      (nowBitmap : BitVec 128)

namespace RemoteAckOp

def Valid : RemoteAckOp → Prop
  | ackBefore p => p.Valid
  | nakBitmap _ p _ q _ => p.Valid ∧ q.Valid

end RemoteAckOp

namespace RemoteAckTracker

def apply (t : RemoteAckTracker) : RemoteAckOp → RemoteAckTracker × Option Psn
  | .ackBefore p => t.ackBefore p
  | .nakBitmap m p b q c => t.nakBitmap m p b q c

def calls (t : RemoteAckTracker) : RemoteAckOp → List TrackerOp
  | .ackBefore p => [.ackBefore p]
  | .nakBitmap m p b q c =>
    (if m=t.msnPre+1 then [.ackRange t.psnPre p] else [])++[.ackBitmap p b,.ackBitmap q c]

theorem apply_eq (t : RemoteAckTracker) (op : RemoteAckOp) :
    ((t.apply op).1.psnTracker,(t.apply op).2)=t.psnTracker.applyAll (t.calls op) := by
  cases op with
  | ackBefore p =>
      simp only [apply,ackBefore,calls,PsnTracker.applyAll,PsnTracker.apply,Option.none_or]
  | nakBitmap m p b q c =>
      rw [apply,nakBitmap,calls]
      by_cases hm : m=t.msnPre+1
      · rw [if_pos hm,if_pos hm]
        simp only [List.cons_append,List.nil_append,PsnTracker.applyAll,PsnTracker.apply,
          Option.none_or]
      · rw [if_neg hm,if_neg hm]
        simp only [List.nil_append,PsnTracker.applyAll,PsnTracker.apply,Option.none_or,
          Option.or_none]

structure Sound (t : RemoteAckTracker) : Prop where
  tracker : t.psnTracker.Sound
  psnPre : t.psnPre.Valid

theorem calls_valid (t : RemoteAckTracker) (op : RemoteAckOp) (hop : op.Valid)
    (hp : t.psnPre.Valid) : ∀ o∈t.calls op,o.Valid := by
  cases op with
  | ackBefore p => simpa [calls,TrackerOp.Valid,TrackerOp.psns,RemoteAckOp.Valid] using hop
  | nakBitmap m p b q c =>
      rw [calls]
      split_ifs
      · simpa [TrackerOp.Valid,TrackerOp.psns,hp,RemoteAckOp.Valid] using hop
      · simpa [TrackerOp.Valid,TrackerOp.psns,RemoteAckOp.Valid] using hop

theorem apply_sound (t : RemoteAckTracker) (op : RemoteAckOp) (hop : op.Valid) (h : Sound t) :
    Sound (t.apply op).1 := by
  have htracker := PsnTracker.applyAll_sound _ _ (calls_valid t op hop h.psnPre) h.tracker
  rw [← t.apply_eq op] at htracker
  refine ⟨htracker,?_⟩
  cases op with
  | ackBefore p => exact h.psnPre
  | nakBitmap m p b q c =>
      simp only [apply,nakBitmap]
      split_ifs
      · exact hop.2
      · exact h.psnPre

end RemoteAckTracker
end BlueRdma
