import Mathlib.Tactic

namespace BlueRdma.BigEndian

/-- The `n` low bytes of a number, the most significant first. -/
def bytes : Nat → Nat → List UInt8
  | 0,_ => []
  | n+1,x => UInt8.ofNat (x/256^n)::bytes n x

def value (bs : List UInt8) : Nat := bs.foldl (fun x b => 256*x+b.toNat) 0

/-- The number in the `n` bytes from `offset` on. -/
def read (buf : List UInt8) (offset n : Nat) : Nat := value ((buf.drop offset).take n)

/-- Overwrites the bytes from `offset` on. -/
def write (buf : List UInt8) (offset : Nat) (src : List UInt8) : List UInt8 :=
  buf.take offset++src++buf.drop (offset+src.length)

@[simp] theorem length_bytes (n x : Nat) : (bytes n x).length=n := by
  induction n with
  | zero => rfl
  | succ n ih => rw [bytes,List.length_cons,ih]

/-- The bytes of a number are those of its upper part, then those of its lower part. -/
theorem bytes_add (m n x : Nat) : bytes (m+n) x=bytes m (x/256^n)++bytes n x := by
  induction m with
  | zero => rw [Nat.zero_add]; rfl
  | succ m ih =>
      rw [Nat.succ_add,bytes,bytes,ih,List.cons_append,Nat.div_div_eq_div_mul,← pow_add,
        Nat.add_comm m n]

theorem value_cons (b : UInt8) (bs : List UInt8) :
    value (b::bs)=b.toNat*256^bs.length+value bs := by
  have hfold (x : Nat) : bs.foldl (fun x b => 256*x+b.toNat) x=x*256^bs.length+value bs := by
    rw [value]
    induction bs generalizing x with
    | nil => simp
    | cons c bs ih =>
        rw [List.foldl_cons,List.foldl_cons,ih,ih (256*0+c.toNat),List.length_cons,pow_succ]
        ring
  rw [value,List.foldl_cons,hfold,Nat.mul_zero,Nat.zero_add]

/-- A number is read back from its bytes, as far as they reach. -/
theorem value_bytes (n x : Nat) : value (bytes n x)=x%256^n := by
  induction n with
  | zero => exact (Nat.mod_one x).symm
  | succ n ih =>
      have hsplit : x%256^(n+1)=x%256^n+256^n*(x/256^n%256) := Nat.mod_mul
      rw [bytes,value_cons,length_bytes,ih,UInt8.toNat_ofNat',hsplit]
      ring

/-- A field is read back where its predecessors end. -/
theorem read_append (before after : List UInt8) (n x : Nat) :
    read (before++(bytes n x++after)) before.length n=x%256^n := by
  rw [read,List.drop_left,List.take_append_of_le_length (by rw [length_bytes]),
    List.take_of_length_le (by rw [length_bytes]),value_bytes]

theorem read_add (before buf : List UInt8) (k n : Nat) :
    read (before++buf) (before.length+k) n=read buf k n := by
  rw [read,read,List.drop_append,List.drop_of_length_le (Nat.le_add_right _ _),List.nil_append,
    Nat.add_sub_cancel_left]

/-- A field that is overwritten where its predecessors end. -/
theorem write_append (before old after src : List UInt8) (h : old.length=src.length) :
    write (before++(old++after)) before.length src=before++(src++after) := by
  rw [write,List.take_left,List.drop_append,List.drop_of_length_le (Nat.le_add_right _ _),
    List.nil_append,Nat.add_sub_cancel_left,← h,List.drop_left,List.append_assoc]

/-- The first `n` 16-bit words of a buffer. -/
def words : Nat → List UInt8 → List Nat
  | 0,_ => []
  | n+1,buf => read buf 0 2::words n (buf.drop 2)

theorem words_flatMap (ws : List Nat) (rest : List UInt8) :
    words ws.length (ws.flatMap (bytes 2)++rest)=ws.map (·%65536) := by
  induction ws with
  | nil => rfl
  | cons w ws ih =>
      have hdrop : (bytes 2 w++(ws.flatMap (bytes 2)++rest)).drop 2=ws.flatMap (bytes 2)++rest :=
        rfl
      rw [List.flatMap_cons,List.append_assoc,List.length_cons,words,hdrop,ih,List.map_cons]
      exact congrArg (·::_) (read_append [] _ 2 w)

/-- Addition of 16-bit words with the carry brought round. -/
def addCarry (a b : Nat) : Nat := (a+b)%65536+(a+b)/65536

/-- The one's complement sum of 16-bit words. -/
def onesComplementSum (ws : List Nat) : Nat := ws.foldl addCarry 0

/-- The sum is taken modulo 65535, with 65535 itself in place of 0 unless all words are 0. -/
theorem onesComplementSum_eq (ws : List Nat) (hws : ∀ w∈ws,w < 65536) :
    onesComplementSum ws=65535 ↔ ws.sum≠0 ∧ 65535∣ws.sum := by
  have hfold (a : Nat) (ha : a < 65536) : ws.foldl addCarry a < 65536 ∧
      (ws.foldl addCarry a=0 ↔ a+ws.sum=0) ∧ ws.foldl addCarry a%65535=(a+ws.sum)%65535 := by
    induction ws generalizing a with
    | nil => simp [ha]
    | cons w ws ih =>
        have hw := hws w List.mem_cons_self
        have hadd : addCarry a w < 65536 ∧ (addCarry a w=0 ↔ a+w=0) ∧
            addCarry a w%65535=(a+w)%65535 := by
          rw [addCarry]
          omega
        obtain ⟨hlt,hzero,hmod⟩ := ih (fun v hv => hws v (List.mem_cons_of_mem w hv)) _ hadd.1
        rw [List.foldl_cons,List.sum_cons]
        refine ⟨hlt,hzero.trans ?_,hmod.trans ?_⟩ <;> omega
  obtain ⟨hlt,hzero,hmod⟩ := hfold 0 (by decide)
  rw [Nat.zero_add] at hzero hmod
  rw [onesComplementSum]
  omega

end BlueRdma.BigEndian
