import CompilerCore.Machine.Arithmetic
import Mathlib.Data.Int.ModEq
import Mathlib.Tactic.Positivity

/-!
# Integers in registers

The machine computes with 64-bit words whose high bytes mean nothing.  This file says which integer
the low bytes of a word stand for in an operand type, gives the arithmetic of those integers, and
shows that the machine performs it on whatever words hold them.

* `OperandType.arith`, `OperandType.negated`, `OperandType.complemented` — arithmetic on integers,
  with results cut to the width.
* `map_read_binary`, `read_merge`, `related_eq`, … — what the machine does, seen through `read`.
-/

namespace CompilerCore

open CompilerCore.Word CompilerCore.Machine Int Int64

namespace Code.OperandType

/-- An operand type of whole numbers of one to eight bytes. -/
structure IsInteger (type : OperandType) : Prop where
  kind : type.kind = .signed ∨ type.kind = .unsigned
  pos : 0 < type.width
  le : type.width ≤ 8

/-- The integer that the low bytes of `n` stand for. -/
def reduce (type : OperandType) (n : Int) : Int :=
  if type.kind = .signed then n.bmod (2 ^ (8 * type.width)) else n % 2 ^ (8 * type.width)

/-- The integer that a word holds at a type. -/
def read (type : OperandType) (word : UInt64) : Int := type.reduce word.toNat

/-- The 64-bit form of an integer: its low bits, in two's complement. -/
def word (n : Int) : UInt64 := (ofInt n).toUInt64

/-- Arithmetic at the width of a type.  Division cuts off towards zero, a shift to the right rounds
down, and shift counts are taken modulo 64. -/
def arith (type : OperandType) (op : ArithOp) (x y : Int) : Except Fault Int :=
  let result (n : Int) : Except Fault Int := .ok (type.reduce n)
  match op with
  | .add => result (x + y)
  | .sub => result (x - y)
  | .mul => result (x * y)
  | .div => if y = 0 then .error .divisionByZero else result (x.tdiv y)
  | .rem => if y = 0 then .error .divisionByZero else result (x.tmod y)
  | .shl => result (x * 2 ^ (y % 64).toNat)
  | .shr => result (x / 2 ^ (y % 64).toNat)
  | .band => result (word x &&& word y).toNat
  | .bor => result (word x ||| word y).toNat
  | .bxor => result (word x ^^^ word y).toNat

variable {type : OperandType}

/-! ## Reduction -/

lemma reduce_signed (h : type.kind = .signed) (n : Int) :
    type.reduce n = n.bmod (2 ^ (8 * type.width)) := by simp [reduce, h]

lemma reduce_unsigned (h : type.kind = .unsigned) (n : Int) :
    type.reduce n = n % 2 ^ (8 * type.width) := by simp [reduce, h]

lemma reduce_congr (h : m ≡ n [ZMOD 2 ^ (8 * type.width)]) : type.reduce m = type.reduce n := by
  unfold reduce
  have h : m % ((2 ^ (8 * type.width) : Nat) : Int) = n % ((2 ^ (8 * type.width) : Nat) : Int) := by
    simpa [Int.ModEq] using h
  split
  · rw [← emod_bmod, h, emod_bmod]
  · simpa using h

lemma reduce_modEq (type : OperandType) (n : Int) :
    type.reduce n ≡ n [ZMOD 2 ^ (8 * type.width)] := by
  unfold reduce Int.ModEq
  split
  · simpa using bmod_emod (x := n) (m := 2 ^ (8 * type.width))
  · exact emod_emod_of_dvd n dvd_rfl

@[simp]
lemma reduce_reduce (type : OperandType) (n : Int) : type.reduce (type.reduce n) = type.reduce n :=
  reduce_congr (type.reduce_modEq n)

lemma reduce_zero (type : OperandType) : type.reduce 0 = 0 := by
  unfold reduce
  split <;> simp

lemma reduce_eq_zero_iff : type.reduce n = 0 ↔ (2 : Int) ^ (8 * type.width) ∣ n := by
  constructor
  · intro h
    have hmod := type.reduce_modEq n
    rw [h] at hmod
    exact modEq_zero_iff_dvd.1 hmod.symm
  · intro h
    rw [← type.reduce_zero]
    exact reduce_congr (modEq_zero_iff_dvd.2 h)

/-- The integers of a type. -/
def Represents (type : OperandType) (n : Int) : Prop :=
  if type.kind = .signed then -2 ^ (8 * type.width - 1) ≤ n ∧ n < 2 ^ (8 * type.width - 1)
  else 0 ≤ n ∧ n < 2 ^ (8 * type.width)

lemma two_pow_eq (h : type.IsInteger) :
    (2 : Int) ^ (8 * type.width) = 2 * 2 ^ (8 * type.width - 1) := by
  have hpos := h.pos
  rw [← pow_succ', Nat.sub_add_cancel (by omega)]

lemma represents_reduce (h : type.IsInteger) (n : Int) : type.Represents (type.reduce n) := by
  unfold Represents reduce
  split
  · have hpow := two_pow_eq h
    have hhalf : (0 : Int) < 2 ^ (8 * type.width - 1) := by positivity
    have hlo := le_bmod (x := n) (m := 2 ^ (8 * type.width)) (by positivity)
    have hhi := bmod_lt (x := n) (m := 2 ^ (8 * type.width)) (by positivity)
    push_cast at hlo hhi
    omega
  · exact ⟨emod_nonneg _ (by positivity), emod_lt_of_pos _ (by positivity)⟩

lemma reduce_eq_self_iff (h : type.IsInteger) : type.reduce n = n ↔ type.Represents n := by
  refine ⟨fun heq => heq ▸ represents_reduce h n, fun hrep => ?_⟩
  unfold Represents at hrep
  by_cases hkind : type.kind = .signed
  · rw [if_pos hkind] at hrep
    have hpow := two_pow_eq h
    rw [reduce_signed hkind]
    refine bmod_eq_of_le ?_ ?_ <;> push_cast <;> omega
  · rw [if_neg hkind] at hrep
    rw [reduce, if_neg hkind]
    exact emod_eq_of_lt hrep.1 hrep.2

end Code.OperandType

/-! ## Words as integers -/

namespace Word

lemma toNat_toUInt64 (v : Int64) : (v.toUInt64.toNat : Int) = v.toInt % 2 ^ 64 := by
  have hmod := bmod_emod (x := v.toBitVec.toNat) (m := 2 ^ 64)
  rw [← UInt64.toNat_toBitVec, toBitVec_toUInt64, ← toInt_toBitVec,
    BitVec.toInt_eq_toNat_bmod]
  omega

lemma toInt_toInt64 {v : UInt64} : v.toInt64.toInt = (v.toNat : Int).bmod (2 ^ 64) := by
  rw [← toInt_toBitVec, BitVec.toInt_eq_toNat_bmod]
  rfl

lemma toNat_smod_of_lt {c : BitVec 64} (h : c.toNat < 64) : (c.smod 64).toNat = c.toNat := by
  have hmsb : c.msb = false := BitVec.msb_eq_false_iff_two_mul_lt.2 (by omega)
  have h64 : (64 : BitVec 64).msb = false := by decide
  rw [BitVec.smod_eq, hmsb, h64]
  exact Nat.mod_eq_of_lt h

lemma toNat_count {b : Int64} : ((b &&& 63).toBitVec.smod 64).toNat = (b.toInt % 64).toNat := by
  have hand : (b &&& 63).toBitVec.toNat = b.toBitVec.toNat % 64 := by
    exact Nat.and_two_pow_sub_one_eq_mod _ 6
  have hmod := bmod_emod (x := b.toBitVec.toNat) (m := 2 ^ 64)
  rw [toNat_smod_of_lt (by omega), hand, ← toInt_toBitVec, BitVec.toInt_eq_toNat_bmod]
  omega

lemma toInt_shiftLeft {a b : Int64} :
    (a <<< (b &&& 63)).toInt = (a.toInt * 2 ^ (b.toInt % 64).toNat).bmod (2 ^ 64) := by
  rw [← toInt_toBitVec, Int64.toBitVec_shiftLeft, BitVec.shiftLeft_eq', toNat_count,
    BitVec.toInt_shiftLeft, Nat.shiftLeft_eq, ← toInt_toBitVec a, BitVec.toInt_eq_toNat_bmod,
    bmod_mul_bmod]
  rfl

lemma toInt_shiftRight {a b : Int64} :
    (a >>> (b &&& 63)).toInt = a.toInt / 2 ^ (b.toInt % 64).toNat := by
  rw [← toInt_toBitVec, Int64.toBitVec_shiftRight, BitVec.toInt_sshiftRight', toNat_count,
    shiftRight_eq_div_pow, toInt_toBitVec]
  rfl

/-- Shifting a word up to its high end and back reduces it. -/
lemma bmod_mul_pow_div (hpos : 0 < width) (hle : width < 8) :
    ((n * 2 ^ (64 - 8 * width) % 2 ^ 64 : Nat) : Int).bmod (2 ^ 64) / (2 ^ (64 - 8 * width) : Nat) =
      (n : Int).bmod (2 ^ (8 * width)) := by
  have hcases : width = 1 ∨ width = 2 ∨ width = 3 ∨ width = 4 ∨ width = 5 ∨ width = 6 ∨
    width = 7 := by omega
  rcases hcases with rfl | rfl | rfl | rfl | rfl | rfl | rfl <;> simp only [bmod] <;>
    split <;> split <;> omega

variable (hpos : 0 < width) (hle : width ≤ 8)
include hpos hle

lemma toInt_signExtend :
    (signExtend w width).toInt = (w.toNat : Int).bmod (2 ^ (8 * width)) := by
  unfold signExtend
  split
  · next h =>
    obtain rfl : width = 8 := by omega
    exact toInt_toInt64
  · next h =>
    extract_lets shift
    have hshift : shift.toNat = 64 - 8 * width := by
      simp only [shift, UInt64.toNat_ofNat']; omega
    have hsmod : (shift.toInt64.toBitVec.smod 64).toNat = shift.toNat :=
      toNat_smod_of_lt (by rw [UInt64.toBitVec_toInt64, UInt64.toNat_toBitVec]; omega)
    rw [← toInt_toBitVec, Int64.toBitVec_shiftRight, BitVec.toInt_sshiftRight', hsmod,
      shiftRight_eq_div_pow, toInt_toBitVec, toInt_toInt64, UInt64.toNat_shiftLeft,
      Nat.mod_eq_of_lt (a := shift.toNat) (by omega), hshift, Nat.shiftLeft_eq]
    exact bmod_mul_pow_div hpos (by omega)

lemma toNat_mask : (mask width).toNat = 2 ^ (8 * width) - 1 := by
  have hall : ∀ width < 9, 0 < width → (mask width).toNat = 2 ^ (8 * width) - 1 := by decide
  exact hall width (by omega) hpos

lemma toNat_and_mask : (w &&& mask width).toNat = w.toNat % 2 ^ (8 * width) := by
  rw [UInt64.toNat_and, toNat_mask hpos hle, Nat.and_two_pow_sub_one_eq_mod]

lemma toNat_merge_mod :
    (merge previous result width).toNat % 2 ^ (8 * width) = result.toNat % 2 ^ (8 * width) := by
  have hnot : (~~~ mask width).toNat % 2 ^ (8 * width) = 0 := by
    have hall : ∀ width < 9, 0 < width → (~~~ mask width).toNat % 2 ^ (8 * width) = 0 := by decide
    exact hall width (by omega) hpos
  unfold merge
  rw [UInt64.toNat_or, toNat_and_mask hpos hle, UInt64.toNat_and, Nat.or_mod_two_pow,
    Nat.and_mod_two_pow, hnot, Nat.and_zero, Nat.zero_or, Nat.mod_mod]

end Word

namespace Code.OperandType

variable {type : OperandType}

lemma read_congr (h : v.toNat % 2 ^ (8 * type.width) = w.toNat % 2 ^ (8 * type.width)) :
    type.read v = type.read w := by
  refine reduce_congr ?_
  exact_mod_cast h

lemma word_toInt {v : Int64} : word v.toInt = v.toUInt64 := by rw [word, ofInt_toInt]

lemma word_toNat : word v.toNat = v := by
  refine UInt64.toNat_inj.1 (ofNat_inj.1 ?_)
  have hlt := v.toNat_lt
  rw [word, Word.toNat_toUInt64, toInt_ofInt]
  have hmod := bmod_emod (x := v.toNat) (m := 2 ^ 64)
  have hsize : size = 2 ^ 64 := rfl
  rw [hsize]
  omega

lemma read_eq_zero_iff : type.read w = 0 ↔ w.toNat % 2 ^ (8 * type.width) = 0 := by
  rw [read, reduce_eq_zero_iff, ← Nat.dvd_iff_mod_eq_zero]
  exact_mod_cast Iff.rfl

lemma test_toInt {rel : Relation} {a b : Int64} : rel.test a b = rel.test a.toInt b.toInt := by
  cases rel <;> rw [Bool.eq_iff_iff] <;>
    simp [Relation.test, lt_iff_toInt_lt, le_iff_toInt_le, toInt_inj]

lemma test_toNat {rel : Relation} {a b : UInt64} :
    rel.test a b = rel.test (a.toNat : Int) b.toNat := by
  cases rel <;> rw [Bool.eq_iff_iff] <;>
    simp [Relation.test, UInt64.lt_iff_toNat_lt, UInt64.le_iff_toNat_le, UInt64.toNat_inj]

lemma extend_zero (type : OperandType) : extend 0 type = 0 := by
  unfold extend
  split
  · have hzero : (0 : Int64).toUInt64 = 0 := rfl
    unfold signExtend
    split <;> simp [hzero]
  all_goals exact UInt64.zero_and

/-- A shift looks at the low bits of its count only. -/
lemma arith_shift_congr (hop : op.group = .shift) (x : Int) (h : y % 64 = z % 64) :
    type.arith op x y = type.arith op x z := by
  cases op with
  | shl | shr => simp [arith, h]
  | _ => cases hop

lemma eq_divisionByZero_of_arith (h : type.arith op x y = .error fault) : fault = .divisionByZero := by
  cases op with
  | div | rem =>
    simp only [arith] at h
    split at h <;> cases h
    rfl
  | _ => cases h

section

variable (h : type.IsInteger)
include h

lemma pow_dvd_word : ((2 : Int) ^ (8 * type.width)) ∣ 2 ^ 64 :=
  pow_dvd_pow 2 (by have := h.le; omega)

/-- A signed word holds the integer that it stands for, cut to the width. -/
lemma read_toUInt64 (v : Int64) : type.read v.toUInt64 = type.reduce v.toInt := by
  unfold read
  rw [Word.toNat_toUInt64]
  exact reduce_congr ((mod_modEq _ _).of_dvd (pow_dvd_word h))

lemma reduce_bmod (n : Int) : type.reduce (n.bmod (2 ^ 64)) = type.reduce n := by
  have hmod : n.bmod (2 ^ 64) ≡ n [ZMOD 2 ^ 64] := bmod_emod (x := n) (m := 2 ^ 64)
  exact reduce_congr (hmod.of_dvd (pow_dvd_word h))

lemma reduce_emod : type.reduce (n % 2 ^ 64) = type.reduce n :=
  reduce_congr ((mod_modEq n _).of_dvd (pow_dvd_word h))

lemma read_word (n : Int) : type.read (word n) = type.reduce n := by
  rw [word, read_toUInt64 h, toInt_ofInt]
  exact reduce_bmod h n

lemma read_merge (previous result : UInt64) :
    type.read (merge previous result type.width) = type.read result :=
  read_congr (Word.toNat_merge_mod h.pos h.le)

lemma read_signExtend (hkind : type.kind = .signed) :
    (signExtend w type.width).toInt = type.read w := by
  rw [Word.toInt_signExtend h.pos h.le, read, reduce_signed hkind]

lemma read_and_mask (hkind : type.kind = .unsigned) :
    ((w &&& mask type.width).toNat : Int) = type.read w := by
  rw [Word.toNat_and_mask h.pos h.le, read, reduce_unsigned hkind]
  norm_cast

/-! ## Arithmetic -/

lemma read_of_toInt {v : Int64} (hv : v.toInt = n.bmod (2 ^ 64)) :
    type.read v.toUInt64 = type.reduce n := by
  rw [read_toUInt64 h, hv, reduce_bmod h]

lemma read_of_toNat {n : Int} (hv : v.toNat = n % 2 ^ 64) : type.read v = type.reduce n := by
  rw [read, hv, reduce_emod h]

lemma map_read_signed :
    (signed op a b).map (fun v => type.read v.toUInt64) = type.arith op a.toInt b.toInt := by
  have hzero : b = 0 ↔ b.toInt = 0 := by
    rw [← toInt_inj]
    rfl
  cases op with
  | add => exact congrArg Except.ok (read_of_toInt h (toInt_add a b))
  | sub => exact congrArg Except.ok (read_of_toInt h (toInt_sub a b))
  | mul => exact congrArg Except.ok (read_of_toInt h (toInt_mul a b))
  | div =>
    by_cases hb : b = 0
    · simp [signed, arith, Except.map, hb]
    · simp only [signed, arith, if_neg hb, if_neg (mt hzero.2 hb)]
      exact congrArg Except.ok (read_of_toInt h (toInt_div a b))
  | rem =>
    by_cases hb : b = 0
    · simp [signed, arith, Except.map, hb]
    · simp [signed, arith, Except.map, hb, mt hzero.2 hb, read_toUInt64 h, toInt_mod]
  | shl => exact congrArg Except.ok (read_of_toInt h Word.toInt_shiftLeft)
  | shr => simp [signed, arith, Except.map, read_toUInt64 h, Word.toInt_shiftRight]
  | band | bor | bxor => simp [signed, arith, Except.map, read, word_toInt]

lemma map_read_unsigned : (unsigned op a b).map type.read = type.arith op a.toNat b.toNat := by
  have hzero : b = 0 ↔ (b.toNat : Int) = 0 := by
    rw [← UInt64.toNat_inj]
    exact_mod_cast Iff.rfl
  have hcount : (b &&& 63).toNat % 64 = ((b.toNat : Int) % 64).toNat := by
    have hand : (b &&& 63).toNat = b.toNat % 64 := by
      exact Nat.and_two_pow_sub_one_eq_mod _ 6
    omega
  cases op with
  | add => exact congrArg Except.ok (read_of_toNat h (by simp [UInt64.toNat_add]))
  | sub =>
    refine congrArg Except.ok (read_of_toNat h ?_)
    have hb := b.toNat_lt
    rw [UInt64.toNat_sub]
    omega
  | mul => exact congrArg Except.ok (read_of_toNat h (by simp [UInt64.toNat_mul]))
  | div =>
    by_cases hb : b = 0
    · simp [unsigned, arith, Except.map, hb]
    · simp only [unsigned, arith, if_neg hb, if_neg (mt hzero.2 hb)]
      refine congrArg (Except.ok ∘ type.reduce) ?_
      rw [UInt64.toNat_div, ofNat_tdiv]
  | rem =>
    by_cases hb : b = 0
    · simp [unsigned, arith, Except.map, hb]
    · simp only [unsigned, arith, if_neg hb, if_neg (mt hzero.2 hb)]
      refine congrArg (Except.ok ∘ type.reduce) ?_
      rw [UInt64.toNat_mod, ofNat_tmod]
  | shl =>
    refine congrArg Except.ok (read_of_toNat h ?_)
    rw [UInt64.toNat_shiftLeft, hcount, Nat.shiftLeft_eq]
    rfl
  | shr =>
    refine congrArg (Except.ok ∘ type.reduce) ?_
    rw [UInt64.toNat_shiftRight, hcount, Nat.shiftRight_eq_div_pow]
    rfl
  | band | bor | bxor => simp [unsigned, arith, Except.map, read, word_toNat]

/-- The machine's arithmetic is that of the integers in its words. -/
lemma map_read_binary (op : ArithOp) (lhs rhs : UInt64) :
    (binary (.arith op) type lhs rhs).map type.read =
      type.arith op (type.read lhs) (type.read rhs) := by
  rcases h.kind with hkind | hkind
  · have hbinary : binary (.arith op) type lhs rhs =
        (signed op (signExtend lhs type.width) (signExtend rhs type.width)).map (·.toUInt64) := by
      simp [binary, hkind]
    rw [hbinary, ← read_signExtend h hkind, ← read_signExtend h hkind, ← map_read_signed h]
    cases signed op (signExtend lhs type.width) (signExtend rhs type.width) <;> rfl
  · have hbinary : binary (.arith op) type lhs rhs =
        unsigned op (lhs &&& mask type.width) (rhs &&& mask type.width) := by
      simp [binary, hkind]
    rw [hbinary, ← read_and_mask h hkind, ← read_and_mask h hkind, ← map_read_unsigned h]

lemma read_emod_64 (w : UInt64) : type.read w % 64 = (w.toNat : Int) % 64 := by
  have hdvd : (2 : Int) ^ 6 ∣ 2 ^ (8 * type.width) := pow_dvd_pow 2 (by have := h.pos; omega)
  exact (type.reduce_modEq w.toNat).of_dvd hdvd

/-! ## Negation, comparison and conversion -/

lemma map_read_negate (w : UInt64) :
    (unary .negate type w).map type.read = .ok (type.reduce (-type.read w)) := by
  have hunary : unary .negate type w = .ok (-w) := by
    rcases h.kind with hkind | hkind <;> simp [unary, hkind]
  have hlt := w.toNat_lt
  rw [hunary]
  refine congrArg Except.ok ?_
  rw [read_of_toNat (n := -w.toNat) h (by rw [UInt64.toNat_neg]; simp only [UInt64.size]; omega)]
  exact reduce_congr (type.reduce_modEq w.toNat).symm.neg

lemma map_read_bitwiseNot (w : UInt64) :
    (unary .bitwiseNot type w).map type.read = .ok (type.reduce (-type.read w - 1)) := by
  have hunary : unary .bitwiseNot type w = .ok (~~~w) := by
    rcases h.kind with hkind | hkind <;> simp [unary, hkind]
  have hlt := w.toNat_lt
  rw [hunary]
  refine congrArg Except.ok ?_
  rw [read_of_toNat (n := -w.toNat - 1) h (by rw [UInt64.toNat_not]; simp only [UInt64.size]; omega)]
  exact reduce_congr ((type.reduce_modEq w.toNat).symm.neg.sub_right 1)

lemma isZero_eq (w : UInt64) : isZero type w = decide (type.read w = 0) := by
  have hzero : isZero type w = (w &&& mask type.width == 0) := by
    rcases h.kind with hkind | hkind <;> simp [isZero, hkind]
  rw [hzero, Bool.eq_iff_iff, beq_iff_eq, decide_eq_true_iff, read_eq_zero_iff,
    ← Word.toNat_and_mask h.pos h.le, ← UInt64.toNat_inj]
  rfl

/-- The machine compares the integers in its words. -/
lemma compare_eq (rel : Relation) (lhs rhs : UInt64) :
    Machine.compare (.compare rel) type lhs rhs =
      .ok (rel.test (type.read lhs) (type.read rhs)) := by
  rcases h.kind with hkind | hkind
  · rw [← read_signExtend h hkind, ← read_signExtend h hkind, ← test_toInt]
    simp [Machine.compare, related, hkind]
  · rw [← read_and_mask h hkind, ← read_and_mask h hkind, ← test_toNat]
    simp [Machine.compare, related, hkind]

lemma extend_eq (w : UInt64) : extend w type = word (type.read w) := by
  rcases h.kind with hkind | hkind
  · simp only [extend, hkind]
    rw [← read_signExtend h hkind, word_toInt]
  · simp only [extend, hkind]
    rw [← read_and_mask h hkind, word_toNat]

lemma extend_word (n : Int) : extend (word n) type = word (type.reduce n) := by
  rw [extend_eq h, read_word h]

lemma ofInt_reduce_inj :
    ofInt (type.reduce m) = ofInt (type.reduce n) ↔ type.reduce m = type.reduce n := by
  refine ⟨fun heq => ?_, congrArg ofInt⟩
  have hword : word (type.reduce m) = word (type.reduce n) := congrArg toUInt64 heq
  rw [← reduce_reduce type m, ← reduce_reduce type n, ← read_word h, hword, read_word h]

lemma ofInt_read_eq_zero (w : UInt64) :
    ofInt (type.read w) = 0 ↔ type.read w = 0 := by
  have hiff := ofInt_reduce_inj h (m := w.toNat) (n := 0)
  rw [reduce_zero] at hiff
  exact hiff

/-! ## Operations on bits

The bits above the width of a number repeat its sign or are zero, so combining two numbers bit by bit
gives a number of the same width. -/

lemma extend_and (v w : UInt64) :
    extend (v &&& w) type = extend v type &&& extend w type := by
  rcases h.kind with hkind | hkind
  · simp only [extend, hkind, signExtend]
    split <;> simp [UInt64.shiftLeft_and, shiftRight_and]
  · simp only [extend, hkind, ← UInt64.toBitVec_inj, UInt64.toBitVec_and]
    grind

lemma extend_or (v w : UInt64) :
    extend (v ||| w) type = extend v type ||| extend w type := by
  rcases h.kind with hkind | hkind
  · simp only [extend, hkind, signExtend]
    split <;> simp [UInt64.shiftLeft_or, shiftRight_or]
  · simp only [extend, hkind, ← UInt64.toBitVec_inj, UInt64.toBitVec_and, UInt64.toBitVec_or]
    exact BitVec.and_or_distrib_right

lemma extend_xor (v w : UInt64) :
    extend (v ^^^ w) type = extend v type ^^^ extend w type := by
  rcases h.kind with hkind | hkind
  · simp only [extend, hkind, signExtend]
    split <;> simp [UInt64.shiftLeft_xor, shiftRight_xor]
  · simp only [extend, hkind, ← UInt64.toBitVec_inj, UInt64.toBitVec_and, UInt64.toBitVec_xor]
    ext i
    grind

lemma word_reduce_bits {f : UInt64 → UInt64 → UInt64}
    (hf : ∀ v w, extend (f v w) type = f (extend v type) (extend w type)) (hx : type.reduce x = x)
    (hy : type.reduce y = y) :
    word (type.reduce (f (word x) (word y)).toNat) = f (word x) (word y) := by
  rw [← read, ← extend_eq h, hf, extend_word h, extend_word h, hx, hy]

end

lemma isInteger_bool : bool.IsInteger := ⟨.inr rfl, by decide, by decide⟩

lemma read_bool (b : Bool) : bool.read b.toUInt64 = b.toInt := by cases b <;> rfl

lemma convert_eq (hs : source.IsInteger) (ht : target.IsInteger) (w : UInt64) :
    convert w source target = .ok (word (target.reduce (source.read w))) := by
  rcases hs.kind with hkind | hkind
  · have hconvert : convert w source target =
        .ok (extend (signExtend w source.width).toUInt64 target) := by
      rcases ht.kind with htgt | htgt <;> simp [convert, hkind, htgt]
    rw [hconvert, extend_eq ht, read_toUInt64 ht, read_signExtend hs hkind]
  · have hconvert : convert w source target = .ok (extend (w &&& mask source.width) target) := by
      rcases ht.kind with htgt | htgt <;> simp [convert, hkind, htgt]
    rw [hconvert, extend_eq ht, read, read_and_mask hs hkind]

end Code.OperandType

end CompilerCore
