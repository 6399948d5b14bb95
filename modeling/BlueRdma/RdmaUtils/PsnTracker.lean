import BlueRdma.Math.BitRow
import BlueRdma.RdmaUtils.Psn

namespace BlueRdma

/-- `u32 as i32`. -/
def asI32 (x : UInt32) : Int := x.toBitVec.toInt

/-- The left edge of a window of PSNs and one bit for each PSN from that edge on. -/
structure PsnTracker where
  basePsn : Psn := ⟨0⟩
  inner : BitRow := []
  deriving DecidableEq

namespace PsnTracker

/-- Signed distance of a PSN from the left edge. The difference is taken on 32 bits; bit 23
decides whether the upper eight bits are forced to ones, and if not they stay as they are. -/
def rstart (t : PsnTracker) (psn : Psn) : Int :=
  let x := psn.inner-t.basePsn.inner
  if (x>>>23)&&&1≠0 then asI32 (x|||0xFF000000) else asI32 x

def tryAdvance (t : PsnTracker) : PsnTracker × Option Psn :=
  let pos := t.inner.leadingOnes
  if pos=0 then (t,none)
  else
    let basePsn := t.basePsn+UInt32.ofNat pos
    (⟨basePsn,t.inner.shiftLeft pos⟩,some basePsn)

def ackBitmap (t : PsnTracker) (nowPsn : Psn) (bitmap : BitVec 128) : PsnTracker × Option Psn :=
  let rstart := t.rstart nowPsn
  let rend := rstart+128
  let inner := if 0 ≤ rend then t.inner.growTo rend.toNat else t.inner
  let inner := inner.setWhere (max rstart 0).toNat rend.toNat
    (fun n => bitmap.getLsbD ((n : Int)-rstart).toNat)
  tryAdvance {t with inner := inner}

def ackBefore (t : PsnTracker) (psn : Psn) : PsnTracker × Option Psn :=
  if 0≤t.rstart psn then
    let rstart := (t.rstart psn).toNat
    let inner := if t.inner.length ≤ rstart then t.inner.fillFalse else t.inner.shiftLeft rstart
    (⟨psn,inner⟩,some psn)
  else (t,none)

/-- Above the left edge the bits are set without an attempt to advance. -/
def ackRange (t : PsnTracker) (psnLow psnHigh : Psn) : PsnTracker × Option Psn :=
  if psnLow≤t.basePsn then t.ackBefore psnHigh
  else if 0≤t.rstart psnLow ∧ 0≤t.rstart psnHigh then
    let rstart := (t.rstart psnLow).toNat
    let rend := (t.rstart psnHigh).toNat
    ({t with inner := (t.inner.growTo (rend+1)).setWhere rstart rend (fun _ => true)},none)
  else (t,none)

def ackOne (t : PsnTracker) (psn : Psn) : PsnTracker × Option Psn :=
  if 0≤t.rstart psn then
    let rstart := (t.rstart psn).toNat
    tryAdvance {t with inner := (t.inner.growTo (rstart+1)).set rstart true}
  else (t,none)

end PsnTracker

/-- Receive-side tracker: which PSNs of the peer have arrived. -/
structure LocalAckTracker where
  psnTracker : PsnTracker := {}
  psnPre : Psn := ⟨0⟩
  deriving DecidableEq

namespace LocalAckTracker

def basePsn (t : LocalAckTracker) : Psn := t.psnTracker.basePsn

def ackOne (t : LocalAckTracker) (psn : Psn) : LocalAckTracker × Option Psn :=
  let (p,x) := t.psnTracker.ackOne psn
  ({t with psnTracker := p},x)

def ackBitmap (t : LocalAckTracker) (basePsn : Psn) (bitmap : BitVec 128) :
    LocalAckTracker × Option Psn :=
  let (p,x) := t.psnTracker.ackRange t.psnPre basePsn
  let (p,y) := p.ackBitmap basePsn bitmap
  (⟨p,if t.psnPre<basePsn then basePsn else t.psnPre⟩,y.or x)

def nakBitmap (t : LocalAckTracker) (psnPre : Psn) (preBitmap : BitVec 128) (psnNow : Psn)
    (nowBitmap : BitVec 128) : LocalAckTracker × Option Psn :=
  let (p,x) := t.psnTracker.ackRange t.psnPre psnPre
  let (p,y) := p.ackBitmap psnPre preBitmap
  let (p,z) := p.ackBitmap psnNow nowBitmap
  (⟨p,if t.psnPre<psnNow then psnNow else t.psnPre⟩,(z.or y).or x)

end LocalAckTracker

/-- Send-side tracker: which PSNs of this QP the peer has acknowledged. -/
structure RemoteAckTracker where
  psnTracker : PsnTracker := {}
  msnPre : UInt16 := 0
  psnPre : Psn := ⟨0⟩
  deriving DecidableEq

namespace RemoteAckTracker

def ackBefore (t : RemoteAckTracker) (psn : Psn) : RemoteAckTracker × Option Psn :=
  let (p,x) := t.psnTracker.ackBefore psn
  ({t with psnTracker := p},x)

def nakBitmap (t : RemoteAckTracker) (msn : UInt16) (psnPre : Psn) (preBitmap : BitVec 128)
    (psnNow : Psn) (nowBitmap : BitVec 128) : RemoteAckTracker × Option Psn :=
  let (p,x) := if msn=t.msnPre+1 then t.psnTracker.ackRange t.psnPre psnPre
    else (t.psnTracker,none)
  let (p,y) := p.ackBitmap psnPre preBitmap
  let (p,z) := p.ackBitmap psnNow nowBitmap
  let t := if t.psnPre<psnNow then {t with psnPre := psnNow,msnPre := msn} else t
  ({t with psnTracker := p},(z.or y).or x)

end RemoteAckTracker

theorem asI32_eq (x : UInt32) : asI32 x=if x.toNat<2^31 then (x.toNat : Int) else x.toNat-2^32 := by
  rw [asI32,BitVec.toInt_eq_toNat_cond]
  change (if 2*x.toNat<2^32 then (x.toNat : Int) else x.toNat-((2^32 : Nat) : Int))=_
  split_ifs <;> omega

theorem bit23_ne_zero (x : UInt32) : (x>>>23)&&&1≠0 ↔ x.toNat/2^23%2=1 := by
  rw [ne_eq,← UInt32.toNat_inj,UInt32.toNat_and,UInt32.toNat_shiftRight]
  change ¬(x.toNat>>>23) &&& 1=0 ↔ _
  rw [Nat.and_one_is_mod,Nat.shiftRight_eq_div_pow]
  omega

theorem or_high_toNat (x : UInt32) : (x|||0xFF000000).toNat=2^24*255+x.toNat%2^24 := by
  have hx := x.toNat_lt
  apply Nat.eq_of_testBit_eq
  intro j
  rw [UInt32.toNat_or,Nat.testBit_or,Nat.testBit_two_pow_mul_add _ (Nat.mod_lt _ (by decide)),
    show (0xFF000000 : UInt32).toNat=2^24*255+0 from rfl,
    Nat.testBit_two_pow_mul_add _ (by decide)]
  split_ifs with hj
  · rw [Nat.testBit_mod_two_pow,Nat.zero_testBit]
    simp [hj]
  · rcases Nat.lt_or_ge j 32 with h32|h32
    · have h255 : (255 : Nat).testBit (j-24)=true := by
        rw [show 255=2^8-1 from rfl,Nat.testBit_two_pow_sub_one]
        simp only [decide_eq_true_eq]
        omega
      rw [h255,Bool.or_true]
    · rw [Nat.testBit_lt_two_pow (hx.trans_le (Nat.pow_le_pow_right (by decide) h32)),
        Bool.false_or]

namespace PsnTracker

/-- The PSN is numerically below the left edge and yet ahead of it on the 24-bit circle. -/
def Crosses (base psn : Psn) : Prop := psn.toNat+2^23<base.toNat

instance (base psn : Psn) : Decidable (Crosses base psn) := inferInstanceAs (Decidable (_<_))

theorem rstart_ahead (t : PsnTracker) (psn : Psn) (hp : psn.Valid)
    (h : t.basePsn.toNat≤psn.toNat) :
    t.rstart psn=if psn.toNat-t.basePsn.toNat<2^23 then ((psn.toNat-t.basePsn.toNat : Nat) : Int)
      else ((psn.toNat-t.basePsn.toNat : Nat) : Int)-2^24 := by
  have hx : (psn.inner-t.basePsn.inner).toNat=psn.toNat-t.basePsn.toNat :=
    UInt32.toNat_sub_of_le _ _ (UInt32.le_iff_toNat_le.mpr h)
  simp only [Psn.Valid] at hp
  simp only [rstart,bit23_ne_zero,asI32_eq,or_high_toNat,hx]
  generalize hd : psn.toNat-t.basePsn.toNat=d
  have hd24 : d<2^24 := by omega
  by_cases hlt : d<2^23
  · rw [if_pos hlt,if_neg (show ¬d/2^23%2=1 by omega),if_pos (show d<2^31 by omega)]
  · rw [if_neg hlt,if_pos (show d/2^23%2=1 by omega),if_neg (show ¬2^24*255+d%2^24<2^31 by omega),
      Nat.mod_eq_of_lt hd24]
    push_cast
    omega

theorem rstart_below (t : PsnTracker) (psn : Psn) (hb : t.basePsn.Valid)
    (h : psn.toNat<t.basePsn.toNat) :
    t.rstart psn=(psn.toNat : Int)-t.basePsn.toNat := by
  simp only [Psn.Valid] at hb
  have hx : (psn.inner-t.basePsn.inner).toNat=2^32-(t.basePsn.toNat-psn.toNat) := by
    have hsub := UInt32.toNat_sub psn.inner t.basePsn.inner
    change _=(2^32-t.basePsn.toNat+psn.toNat)%2^32 at hsub
    omega
  simp only [rstart,bit23_ne_zero,asI32_eq,or_high_toNat,hx]
  generalize hd : t.basePsn.toNat-psn.toNat=d
  have hd24 : 0<d ∧ d<2^24 := by omega
  rw [show (psn.toNat : Int)-t.basePsn.toNat=-(d : Int) by omega]
  split_ifs <;> push_cast <;> omega

/-- The distance is the signed 24-bit one, except that a PSN ahead of the left edge across
the wrap is taken to be behind it. -/
theorem rstart_eq (t : PsnTracker) (psn : Psn) (hb : t.basePsn.Valid) (hp : psn.Valid) :
    t.rstart psn=
      if Serial.dist (2^23) psn.toNat t.basePsn.toNat<2^23 ∧ ¬Crosses t.basePsn psn
      then (Serial.dist (2^23) psn.toNat t.basePsn.toNat : Int)
      else (Serial.dist (2^23) psn.toNat t.basePsn.toNat : Int)-2^24 := by
  simp only [Psn.Valid] at hb hp
  rcases Nat.lt_or_ge psn.toNat t.basePsn.toNat with h|h
  · have hd := Serial.dist_of_lt (2^23) psn.toNat t.basePsn.toNat h (by omega)
    rw [rstart_below t psn hb h,if_neg (by rw [hd,Crosses]; omega)]
    omega
  · have hd := Serial.dist_of_le (2^23) psn.toNat t.basePsn.toNat h (by omega)
    have hc : ¬Crosses t.basePsn psn := by rw [Crosses]; omega
    rw [rstart_ahead t psn hp h,hd]
    simp only [hc,not_false_eq_true,and_true]

def shift (s : UInt32) (t : PsnTracker) : PsnTracker := {t with basePsn := t.basePsn+s}

/-- Translating edge and PSN keeps the distance exactly if it keeps whether the PSN crosses. -/
theorem rstart_shift_iff (t : PsnTracker) (psn : Psn) (s : UInt32) (hb : t.basePsn.Valid)
    (hp : psn.Valid) :
    (t.shift s).rstart (psn+s)=t.rstart psn ↔
      (Crosses (t.basePsn+s) (psn+s) ↔ Crosses t.basePsn psn) := by
  have hd : Serial.dist (2^23) (psn+s).toNat (t.basePsn+s).toNat=
      Serial.dist (2^23) psn.toNat t.basePsn.toNat := by
    rw [Psn.add_toNat,Psn.add_toNat,show 2^24=2*2^23 from rfl,Serial.dist_mod _ _ _ (by decide),
      Serial.dist_shift _ _ _ _ (by decide)]
  have hfar : ∀ b p : Psn,b.Valid → p.Valid → Crosses b p →
      Serial.dist (2^23) p.toNat b.toNat<2^23 := by
    intro b p hb hp hc
    simp only [Psn.Valid,Crosses] at hb hp hc
    rw [Serial.dist_of_lt (2^23) _ _ (by omega) (by omega)]
    omega
  have h1 := hfar _ _ hb hp
  have h2 := hfar _ _ (Psn.add_valid t.basePsn s) (Psn.add_valid psn s)
  rw [rstart_eq t psn hb hp,
    rstart_eq (t.shift s) (psn+s) (Psn.add_valid ..) (Psn.add_valid ..),
    show (t.shift s).basePsn=t.basePsn+s from rfl]
  rw [hd] at h2 ⊢
  by_cases hc : Crosses t.basePsn psn <;> by_cases hc' : Crosses (t.basePsn+s) (psn+s)
  · simp [hc,hc']
  · rw [if_pos ⟨h1 hc,hc'⟩,if_neg (fun h => h.2 hc)]
    exact iff_of_false (by omega) (fun h => hc' (h.mpr hc))
  · rw [if_neg (fun h => h.2 hc'),if_pos ⟨h2 hc',hc⟩]
    exact iff_of_false (by omega) (fun h => hc (h.mp hc'))
  · simp [hc,hc']

/-- What an update says about the left edge: the edge is where the report puts it, and where it
was when nothing is reported. -/
structure Reports (t : PsnTracker) (r : PsnTracker × Option Psn) : Prop where
  edge : r.1.basePsn=r.2.getD t.basePsn
  valid : t.basePsn.Valid → r.1.basePsn.Valid

theorem reports_none (t : PsnTracker) : Reports t (t,none) := ⟨rfl,id⟩

theorem Reports.trans (t : PsnTracker) (r r' : PsnTracker × Option Psn) (h : Reports t r)
    (h' : Reports r.1 r') : Reports t (r'.1,r'.2.or r.2) := by
  refine ⟨?_,fun hv => h'.valid (h.valid hv)⟩
  rw [h'.edge,h.edge]
  cases r'.2 <;> rfl

theorem tryAdvance_reports (t : PsnTracker) : Reports t t.tryAdvance := by
  unfold tryAdvance
  dsimp only
  split_ifs
  · exact reports_none t
  · exact ⟨rfl,fun _ => Psn.add_valid ..⟩

theorem ackOne_reports (t : PsnTracker) (psn : Psn) : Reports t (t.ackOne psn) := by
  unfold ackOne
  split_ifs
  · have h := tryAdvance_reports
      {t with inner := (t.inner.growTo ((t.rstart psn).toNat+1)).set (t.rstart psn).toNat true}
    exact ⟨h.edge,h.valid⟩
  · exact reports_none t

theorem ackBitmap_reports (t : PsnTracker) (nowPsn : Psn) (bitmap : BitVec 128) :
    Reports t (t.ackBitmap nowPsn bitmap) := by
  unfold ackBitmap
  dsimp only
  generalize BitRow.setWhere _ _ _ _=inner
  have h := tryAdvance_reports {t with inner := inner}
  exact ⟨h.edge,h.valid⟩

theorem ackBefore_reports (t : PsnTracker) (psn : Psn) (hp : psn.Valid) :
    Reports t (t.ackBefore psn) := by
  unfold ackBefore
  split_ifs
  · exact ⟨rfl,fun _ => hp⟩
  · exact reports_none t

theorem ackRange_reports (t : PsnTracker) (psnLow psnHigh : Psn) (hp : psnHigh.Valid) :
    Reports t (t.ackRange psnLow psnHigh) := by
  unfold ackRange
  split_ifs
  · exact ackBefore_reports t psnHigh hp
  · exact ⟨rfl,id⟩
  · exact reports_none t

end PsnTracker

namespace RemoteAckTracker

theorem ackBefore_reports (t : RemoteAckTracker) (psn : Psn) (hp : psn.Valid) :
    PsnTracker.Reports t.psnTracker ((t.ackBefore psn).1.psnTracker,(t.ackBefore psn).2) :=
  PsnTracker.ackBefore_reports t.psnTracker psn hp

theorem nakBitmap_reports (t : RemoteAckTracker) (msn : UInt16) (psnPre : Psn)
    (preBitmap : BitVec 128) (psnNow : Psn) (nowBitmap : BitVec 128) (hp : psnPre.Valid) :
    PsnTracker.Reports t.psnTracker
      ((t.nakBitmap msn psnPre preBitmap psnNow nowBitmap).1.psnTracker,
        (t.nakBitmap msn psnPre preBitmap psnNow nowBitmap).2) := by
  have hfirst : PsnTracker.Reports t.psnTracker
      (if msn=t.msnPre+1 then t.psnTracker.ackRange t.psnPre psnPre else (t.psnTracker,none)) := by
    split_ifs
    · exact PsnTracker.ackRange_reports _ _ _ hp
    · exact PsnTracker.reports_none _
  rw [nakBitmap]
  generalize (if msn=t.msnPre+1 then t.psnTracker.ackRange t.psnPre psnPre
    else (t.psnTracker,none))=r at hfirst ⊢
  have hpre := hfirst.trans _ _ _ (PsnTracker.ackBitmap_reports r.1 psnPre preBitmap)
  have hnow := hpre.trans _ _ _ (PsnTracker.ackBitmap_reports _ psnNow nowBitmap)
  dsimp only
  rw [Option.or_assoc]
  exact hnow

end RemoteAckTracker

/-- Every PSN up to this one has been heard, without a wrap. -/
structure Psn.Reached (heard : List Psn) (p : Psn) : Prop where
  low : p.toNat<2^23
  below : ∀ q<p.toNat,Psn.wrap q∈heard

theorem Psn.Reached.mono (heard heard' : List Psn) (p : Psn) (h : Psn.Reached heard p)
    (hsub : heard⊆heard') : Psn.Reached heard' p :=
  ⟨h.low,fun q hq => hsub (h.below q hq)⟩

/-- Without a wrap, what has been reached covers every PSN that is not ahead of it. -/
theorem Psn.Reached.of_le (heard : List Psn) (p q : Psn) (h : Psn.Reached heard p)
    (hq : q.toNat<2^23) (hle : q≤p) : Psn.Reached heard q := by
  have hp := h.low
  have hle : q.toNat≤p.toNat := by
    rw [Psn.eq_wrap q (by simp only [Psn.Valid]; omega),
      Psn.eq_wrap p (by simp only [Psn.Valid]; omega)] at hle
    exact (Psn.wrap_le _ _ (by omega) (by omega)).mp hle
  exact ⟨hq,fun r hr => h.below r (by omega)⟩

namespace PsnTracker

/-- The left edge and the set bits stand for PSNs that have been heard. -/
structure Records (heard : List Psn) (t : PsnTracker) : Prop where
  edge : Psn.Reached heard t.basePsn
  bits : ∀ i,t.inner.bit i=true →
    Psn.wrap (t.basePsn.toNat+i)∈heard ∧ t.basePsn.toNat+i+1<2^23

theorem Records.mono (heard heard' : List Psn) (t : PsnTracker) (h : Records heard t)
    (hsub : heard⊆heard') : Records heard' t :=
  ⟨h.edge.mono _ _ _ hsub,fun i hi => ⟨hsub (h.bits i hi).1,(h.bits i hi).2⟩⟩

theorem tryAdvance_edge (heard : List Psn) (t : PsnTracker) (h : Records heard t) :
    t.tryAdvance.1.basePsn.toNat=t.basePsn.toNat+t.inner.leadingOnes := by
  have hbase := h.edge.low
  unfold tryAdvance
  dsimp only
  split_ifs with hpos
  · rw [hpos]
    rfl
  -- the last bit of the run bounds the new edge
  · have hlast := (h.bits (t.inner.leadingOnes-1)
      (t.inner.bit_of_lt_leadingOnes _ (by omega))).2
    rw [Psn.add_toNat,UInt32.toNat_ofNat_of_lt' (show _<2^32 by omega)]
    exact Nat.mod_eq_of_lt (by omega)

theorem tryAdvance_records (heard : List Psn) (t : PsnTracker) (h : Records heard t) :
    Records heard t.tryAdvance.1 := by
  have hedge := tryAdvance_edge heard t h
  have hlow : t.basePsn.toNat+t.inner.leadingOnes<2^23 := by
    have hbase := h.edge.low
    rcases Nat.eq_zero_or_pos t.inner.leadingOnes with hpos|hpos
    · omega
    · have hlast := (h.bits (t.inner.leadingOnes-1)
        (t.inner.bit_of_lt_leadingOnes _ (by omega))).2
      omega
  refine ⟨⟨by omega,?_⟩,?_⟩
  · intro q hq
    rw [hedge] at hq
    rcases Nat.lt_or_ge q t.basePsn.toNat with hlt|hge
    · exact h.edge.below q hlt
    · have hbit := (h.bits (q-t.basePsn.toNat) (t.inner.bit_of_lt_leadingOnes _ (by omega))).1
      rwa [Nat.add_sub_cancel' hge] at hbit
  · intro i hi
    rw [hedge]
    have hold : t.inner.bit (i+t.inner.leadingOnes)=true := by
      unfold tryAdvance at hi
      dsimp only at hi
      split_ifs at hi with hpos
      · rwa [hpos,Nat.add_zero]
      · rwa [BitRow.bit_shiftLeft] at hi
    obtain ⟨hheard,hlow⟩ := h.bits _ hold
    rw [show t.basePsn.toNat+t.inner.leadingOnes+i=
      t.basePsn.toNat+(i+t.inner.leadingOnes) by omega]
    exact ⟨hheard,hlow⟩

/-- Without a wrap the distance is the difference. -/
theorem rstart_low (t : PsnTracker) (psn : Psn) (hb : t.basePsn.toNat<2^23) (hp : psn.toNat<2^23) :
    t.rstart psn=(psn.toNat : Int)-t.basePsn.toNat := by
  rcases Nat.lt_or_ge psn.toNat t.basePsn.toNat with h|h
  · exact rstart_below t psn (by simp only [Psn.Valid]; omega) h
  · rw [rstart_ahead t psn (by simp only [Psn.Valid]; omega) h,if_pos (by omega)]
    omega

theorem bit_ackOne (t : PsnTracker) (n i : Nat) :
    BitRow.bit ((t.inner.growTo (n+1)).set n true) i=(decide (i=n) || t.inner.bit i) := by
  rw [BitRow.bit_set _ _ _ (by rw [BitRow.length_growTo]; omega),BitRow.bit_growTo]

theorem ackOne_records (heard : List Psn) (t : PsnTracker) (psn : Psn) (h : Records heard t)
    (hlow : psn.toNat+1<2^23) (hpsn : psn∈heard) : Records heard (t.ackOne psn).1 := by
  have hstart := rstart_low t psn h.edge.low (by omega)
  unfold ackOne
  split_ifs with hahead
  · refine tryAdvance_records heard _ ⟨h.edge,?_⟩
    intro i hi
    dsimp only at hi ⊢
    rw [bit_ackOne,Bool.or_eq_true,decide_eq_true_eq] at hi
    rcases hi with rfl|hi
    · rw [show t.basePsn.toNat+(t.rstart psn).toNat=psn.toNat by omega,
        ← Psn.eq_wrap psn (by simp only [Psn.Valid]; omega)]
      exact ⟨hpsn,hlow⟩
    · exact h.bits i hi
  · exact h

/-- Nothing that was heard is missing, and the PSN at the left edge was not heard. -/
structure Exact (heard : List Psn) (t : PsnTracker) : Prop extends Records heard t where
  recorded : ∀ p∈heard,p.toNat<t.basePsn.toNat ∨ t.inner.bit (p.toNat-t.basePsn.toNat)=true
  gap : t.inner.bit 0=false

theorem tryAdvance_exact (heard : List Psn) (t : PsnTracker) (h : Records heard t)
    (hrec : ∀ p∈heard,p.toNat<t.basePsn.toNat ∨ t.inner.bit (p.toNat-t.basePsn.toNat)=true) :
    Exact heard t.tryAdvance.1 := by
  refine ⟨tryAdvance_records heard t h,?_,?_⟩
  · intro p hp
    have hold := hrec p hp
    have hedge := tryAdvance_edge heard t h
    unfold tryAdvance at hedge ⊢
    dsimp only at hedge ⊢
    split_ifs at hedge ⊢ with hpos
    · exact hold
    · dsimp only at hedge ⊢
      rw [hedge,BitRow.bit_shiftLeft]
      rcases Nat.lt_or_ge p.toNat (t.basePsn.toNat+t.inner.leadingOnes) with hlt|hge
      · exact Or.inl hlt
      · refine Or.inr ?_
        rw [show p.toNat-(t.basePsn.toNat+t.inner.leadingOnes)+t.inner.leadingOnes=
          p.toNat-t.basePsn.toNat by omega]
        exact hold.resolve_left (by omega)
  · have hclear := t.inner.bit_leadingOnes
    unfold tryAdvance
    dsimp only
    split_ifs with hpos
    · rwa [hpos] at hclear
    · dsimp only
      rwa [BitRow.bit_shiftLeft,Nat.zero_add]

theorem ackOne_exact (heard : List Psn) (t : PsnTracker) (psn : Psn) (h : Exact heard t)
    (hlow : psn.toNat+1<2^23) : Exact (heard++[psn]) (t.ackOne psn).1 := by
  have hstart := rstart_low t psn h.edge.low (by omega)
  have hrec : Records (heard++[psn]) t := h.mono heard _ t (List.subset_append_left _ _)
  have hmem : psn∈heard++[psn] := List.mem_append_right _ (List.mem_singleton_self psn)
  by_cases hahead : 0≤t.rstart psn
  · have hset : Records (heard++[psn]) {t with
        inner := (t.inner.growTo ((t.rstart psn).toNat+1)).set (t.rstart psn).toNat true} := by
      refine ⟨hrec.edge,?_⟩
      intro i hi
      dsimp only at hi ⊢
      rw [bit_ackOne,Bool.or_eq_true,decide_eq_true_eq] at hi
      rcases hi with rfl|hi
      · rw [show t.basePsn.toNat+(t.rstart psn).toNat=psn.toNat by omega,
          ← Psn.eq_wrap psn (by simp only [Psn.Valid]; omega)]
        exact ⟨hmem,hlow⟩
      · exact hrec.bits i hi
    rw [ackOne,if_pos hahead]
    refine tryAdvance_exact _ _ hset ?_
    intro p hp
    dsimp only
    rw [bit_ackOne,Bool.or_eq_true,decide_eq_true_eq]
    rcases List.mem_append.mp hp with hp|hp
    · rcases h.recorded p hp with hlt|hbit
      · exact Or.inl hlt
      · exact Or.inr (Or.inr hbit)
    · obtain rfl := List.mem_singleton.mp hp
      exact Or.inr (Or.inl (by omega))
  · rw [ackOne,if_neg hahead]
    refine ⟨hrec,?_,h.gap⟩
    intro p hp
    rcases List.mem_append.mp hp with hp|hp
    · exact h.recorded p hp
    · obtain rfl := List.mem_singleton.mp hp
      exact Or.inl (show p.toNat<t.basePsn.toNat by omega)

end PsnTracker

end BlueRdma
