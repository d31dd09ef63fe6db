import ZReader.Lib.Utf8

namespace Lib.Crc32

open Utf8

/-! ## Bitwise operators on numbers

ECMAScript applies them to 32 bits of its numbers: `&` and `^` give a signed result, `>>>` an
unsigned one. -/

def toBits (x : Int) : BitVec 32 := BitVec.ofInt 32 x

def bitAnd (x y : Int) : Int := (toBits x &&& toBits y).toInt

def bitXor (x y : Int) : Int := (toBits x ^^^ toBits y).toInt

def shiftRight (x : Int) (n : Nat) : Nat := (toBits x >>> n).toNat

@[simp] theorem toBits_toInt (x : BitVec 32) : toBits x.toInt = x := BitVec.ofInt_toInt

@[simp] theorem toBits_natCast (n : Nat) : toBits n = BitVec.ofNat 32 n := BitVec.ofInt_natCast 32 n

@[simp] theorem toBits_bitAnd (x y : Int) : toBits (bitAnd x y) = toBits x &&& toBits y :=
  toBits_toInt _

@[simp] theorem toBits_bitXor (x y : Int) : toBits (bitXor x y) = toBits x ^^^ toBits y :=
  toBits_toInt _

@[simp] theorem toBits_shiftRight (x : Int) (n : Nat) : toBits (shiftRight x n) = toBits x >>> n := by
  rw [shiftRight, toBits_natCast, BitVec.ofNat_toNat, BitVec.setWidth_eq]

/-! ## The checksum, bit by bit -/

/-- The generator polynomial, reflected. -/
def polynomial : BitVec 32 := 0xedb88320#32

/-- One bit of a message leaves the remainder. -/
def shift (c : BitVec 32) : BitVec 32 :=
  if c.getLsbD 0 then polynomial ^^^ (c >>> 1) else c >>> 1

def absorb (c : BitVec 32) (b : UInt8) : BitVec 32 := shift^[8] (c ^^^ BitVec.ofNat 32 b.toNat)

def crc32 (bytes : Bytes) : BitVec 32 := bytes.foldl absorb (BitVec.allOnes 32) ^^^ BitVec.allOnes 32

theorem shift_xor (c d : BitVec 32) : shift (c ^^^ d) = shift c ^^^ shift d := by
  have hshift : (c ^^^ d) >>> 1 = (c >>> 1) ^^^ (d >>> 1) := BitVec.ushiftRight_xor_distrib c d 1
  rw [shift, shift, shift, BitVec.getLsbD_xor, hshift]
  cases c.getLsbD 0 with
  | false =>
      cases d.getLsbD 0 with
      | false => rfl
      | true => simp only [Bool.false_xor, if_true, Bool.false_eq_true, if_false]; ac_rfl
  | true =>
      cases d.getLsbD 0 with
      | false => simp only [Bool.xor_false, if_true, Bool.false_eq_true, if_false]; ac_rfl
      | true =>
          have hcancel : polynomial ^^^ (c >>> 1) ^^^ (polynomial ^^^ (d >>> 1)) =
              (polynomial ^^^ polynomial) ^^^ ((c >>> 1) ^^^ (d >>> 1)) := by ac_rfl
          simp only [Bool.xor_self, Bool.false_eq_true, if_false, if_true, hcancel, BitVec.xor_self,
            BitVec.zero_xor]

theorem shifts_xor (n : Nat) (c d : BitVec 32) : shift^[n] (c ^^^ d) = shift^[n] c ^^^ shift^[n] d := by
  induction n generalizing c d with
  | zero => rfl
  | succ n ih => rw [Function.iterate_succ_apply, shift_xor, ih]; rfl

/-- Zeros leave the remainder without a trace. -/
theorem shifts_of_zeros {n : Nat} {c : BitVec 32} (h : ∀ i < n, c.getLsbD i = false) :
    shift^[n] c = c >>> n := by
  induction n generalizing c with
  | zero => simp
  | succ n ih =>
      have hzero := h 0 (Nat.succ_pos n)
      have hstep : shift c = c >>> 1 := by
        rw [shift, hzero]
        rfl
      rw [Function.iterate_succ_apply, hstep, ih, ← BitVec.shiftRight_add, Nat.add_comm]
      intro i hi
      rw [BitVec.getLsbD_ushiftRight]
      exact h (1 + i) (by omega)

theorem testBit_byte (i : Nat) : Nat.testBit 0xff i = decide (i < 8) :=
  Nat.testBit_two_pow_sub_one 8 i

/-- The low byte of a remainder and the others. -/
theorem low_xor_high (c : BitVec 32) : (c &&& 0xff#32) ^^^ ((c >>> 8) <<< 8) = c := by
  apply BitVec.eq_of_getLsbD_eq
  intro i hi
  simp only [BitVec.getLsbD_xor, BitVec.getLsbD_and, BitVec.getLsbD_ofNat, BitVec.getLsbD_shiftLeft,
    BitVec.getLsbD_ushiftRight, testBit_byte, hi, decide_true, Bool.true_and]
  by_cases hlow : i < 8
  · simp [hlow]
  · have hindex : 8 + (i - 8) = i := by omega
    simp [hlow, hindex]

/-- A byte of shifts is a table look-up by the low byte and a move of the others. -/
theorem shifts_byte (c : BitVec 32) : shift^[8] c = shift^[8] (c &&& 0xff#32) ^^^ (c >>> 8) := by
  have hhigh : shift^[8] ((c >>> 8) <<< 8) = ((c >>> 8) <<< 8) >>> 8 := by
    apply shifts_of_zeros
    intro i hi
    simp [BitVec.getLsbD_shiftLeft, hi]
  have hmove : ((c >>> 8) <<< 8) >>> 8 = c >>> 8 := by
    apply BitVec.eq_of_getLsbD_eq
    intro i hi
    simp only [BitVec.getLsbD_ushiftRight, BitVec.getLsbD_shiftLeft]
    by_cases hin : 8 + i < 32
    · simp [hin]
    · simp [hin, BitVec.getLsbD_of_ge c (8 + i) (by omega)]
  calc shift^[8] c = shift^[8] ((c &&& 0xff#32) ^^^ ((c >>> 8) <<< 8)) := by rw [low_xor_high]
    _ = shift^[8] (c &&& 0xff#32) ^^^ (c >>> 8) := by rw [shifts_xor, hhigh, hmove]

/-- The checksum with a table: `table` holds eight shifts of each byte. -/
theorem absorb_eq (c : BitVec 32) (b : UInt8) :
    absorb c b = shift^[8] ((c ^^^ BitVec.ofNat 32 b.toNat) &&& 0xff#32) ^^^ (c >>> 8) := by
  have hbyte : BitVec.ofNat 32 b.toNat >>> 8 = 0#32 := by
    apply BitVec.eq_of_toNat_eq
    have := b.toNat_lt
    rw [BitVec.toNat_ushiftRight, BitVec.toNat_ofNat, Nat.shiftRight_eq_div_pow]
    simp only [BitVec.toNat_ofNat]
    omega
  rw [absorb, shifts_byte, BitVec.ushiftRight_xor_distrib, hbyte, BitVec.xor_zero]

end Lib.Crc32
