import Mathlib.Tactic

namespace BlueRdma.BitField

/-- A value with its width in bits. -/
abbrev Field := (w : Nat) × BitVec w

def width : List Field → Nat
  | [] => 0
  | f::fs => f.1+width fs

def pack : List Field → Nat
  | [] => 0
  | f::fs => f.2.toNat+2^f.1*pack fs

/-- The field of width `w` that starts at bit `offset`. -/
def field (w offset x : Nat) : BitVec w := BitVec.ofNat w (x/2^offset)

theorem field_toNat (w offset x : Nat) : (field w offset x).toNat=x/2^offset%2^w :=
  BitVec.toNat_ofNat ..

theorem pack_lt (fs : List Field) : pack fs<2^width fs := by
  induction fs with
  | nil => exact Nat.one_pos
  | cons f fs ih =>
      have hf := f.2.isLt
      have hmul := Nat.mul_le_mul_left (2^f.1) (Nat.succ_le_of_lt ih)
      rw [pack,width,pow_add]
      rw [Nat.mul_succ] at hmul
      omega

theorem pack_div (f : Field) (fs : List Field) (offset : Nat) :
    pack (f::fs)/2^(f.1+offset)=pack fs/2^offset := by
  rw [pack,pow_add,← Nat.div_div_eq_div_mul,Nat.add_mul_div_left _ _ (Nat.two_pow_pos _),
    Nat.div_eq_of_lt f.2.isLt,Nat.zero_add]

/-- A field is read back at the position its predecessors leave. -/
theorem field_pack (fs : List Field) (i : Nat) (w : Nat) (v : BitVec w)
    (h : fs[i]?=some ⟨w,v⟩) : field w (width (fs.take i)) (pack fs)=v := by
  induction fs generalizing i with
  | nil => cases h
  | cons f fs ih =>
      cases i with
      | zero =>
          obtain rfl := Option.some.inj h
          apply BitVec.eq_of_toNat_eq
          rw [field_toNat,pack]
          change (v.toNat+2^w*pack fs)/2^0%2^w=v.toNat
          rw [pow_zero,Nat.div_one,Nat.add_mul_mod_self_left,Nat.mod_eq_of_lt v.isLt]
      | succ i =>
          have hi := ih i h
          rw [field] at hi ⊢
          rw [List.take_succ_cons,width,pack_div]
          exact hi

/-- A field of one bit. -/
def flag (offset x : Nat) : Bool := field 1 offset x==1#1

theorem flag_eq (offset x : Nat) : flag offset x=decide (x/2^offset%2=1) := by
  rw [flag,Bool.beq_eq_decide_eq]
  congr 1
  rw [← BitVec.toNat_inj,field_toNat]
  rfl

theorem flag_pack (fs : List Field) (i : Nat) (b : Bool)
    (h : fs[i]?=some ⟨1,BitVec.ofBool b⟩) : flag (width (fs.take i)) (pack fs)=b := by
  rw [flag,field_pack fs i 1 _ h]
  cases b <;> rfl

/-- The fields that make up a word, given their widths. -/
def unpack : List Nat → Nat → List Field
  | [],_ => []
  | w::ws,x => ⟨w,BitVec.ofNat w x⟩::unpack ws (x/2^w)

theorem pack_unpack (ws : List Nat) (x : Nat) : pack (unpack ws x)=x%2^ws.sum := by
  induction ws generalizing x with
  | nil => exact (Nat.mod_one x).symm
  | cons w ws ih =>
      rw [unpack,pack,ih,List.sum_cons,pow_add,BitVec.toNat_ofNat]
      exact (Nat.mod_mul).symm

theorem unpack_replicate (n w x : Nat) :
    unpack (List.replicate n w) x=List.ofFn fun k : Fin n => ⟨w,field w (w*k) x⟩ := by
  induction n generalizing x with
  | zero => rfl
  | succ n ih =>
      rw [List.replicate_succ,unpack,ih,List.ofFn_succ]
      congr 1
      · simp [field]
      · congr 1
        funext k
        rw [field,field,Nat.div_div_eq_div_mul,← pow_add,Fin.val_succ,Nat.mul_succ,Nat.add_comm]

/-- Cutting a value to `w` bits masks it. -/
theorem setWidth_mask {n : Nat} (x : BitVec n) (w : Nat) (hw : w ≤ n) :
    (x.setWidth w).setWidth n=x&&&BitVec.ofNat n (2^w-1) := by
  apply BitVec.eq_of_toNat_eq
  have hpow : 2^w ≤ 2^n := Nat.pow_le_pow_right Nat.two_pos hw
  have hpos := Nat.two_pow_pos w
  have hmod := Nat.mod_lt x.toNat hpos
  rw [BitVec.toNat_setWidth,BitVec.toNat_setWidth,BitVec.toNat_and,BitVec.toNat_ofNat,
    Nat.mod_eq_of_lt (show x.toNat%2^w<2^n by omega),
    Nat.mod_eq_of_lt (show 2^w-1<2^n by omega),Nat.and_two_pow_sub_one_eq_mod]

end BlueRdma.BitField
