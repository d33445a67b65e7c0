import CompilerCore.Proofs.Except
import CompilerCore.Proofs.Machine.Integers
import Mathlib.Data.Int.Bitwise

/-!
# Arithmetic in registers is exact

An operation cuts its operands to their width, computes with 64 bits and leaves it to the machine to
cut the result.  This file says what comes of that in terms of integers alone, with no word on either
side of an equation: the result has the low bytes of the exact result.
-/

namespace CompilerCore

open CompilerCore.Word CompilerCore.Machine Int

/-- The result of an operation on integers; a division by zero has none.  Division cuts off towards
zero, a shift to the right rounds down, and shift counts are taken modulo 64.  For the operations on
bits a negative integer has infinitely many ones in front. -/
def ArithOp.result? (op : ArithOp) (x y : Int) : Option Int :=
  match op with
  | .add => some (x + y)
  | .sub => some (x - y)
  | .mul => some (x * y)
  | .div => if y = 0 then none else some (x.tdiv y)
  | .rem => if y = 0 then none else some (x.tmod y)
  | .shl => some (x * 2 ^ (y % 64).toNat)
  | .shr => some (x / 2 ^ (y % 64).toNat)
  | .band => some (x.land y)
  | .bor => some (x.lor y)
  | .bxor => some (x.xor y)

/-- The comparison of integers that a relation stands for. -/
def Relation.Holds (r : Relation) (x y : Int) : Prop :=
  match r with
  | .eq => x = y
  | .ne => x ≠ y
  | .lt => x < y
  | .le => x ≤ y
  | .gt => x > y
  | .ge => x ≥ y

lemma Relation.test_iff (r : Relation) (x y : Int) : r.test x y = true ↔ r.Holds x y := by
  cases r <;> simp [test, Holds]

/-! ## The low bits of an integer -/

namespace Word

/-- An integer modulo a power of two is made of its lowest bit and of the others, modulo half of it. -/
lemma modEq_two_pow_succ (a b : Int) (n : Nat) : a ≡ b [ZMOD 2 ^ (n + 1)] ↔
    a.bodd = b.bodd ∧ a.div2 ≡ b.div2 [ZMOD 2 ^ n] := by
  have ha := bodd_add_div2 a
  have hb := bodd_add_div2 b
  have hpow : (2 : Int) ^ (n + 1) = 2 * 2 ^ n := pow_succ' 2 n
  rw [modEq_iff_dvd, modEq_iff_dvd, hpow]
  constructor
  · rintro ⟨k, hk⟩
    have hodd : a.bodd = b.bodd := by
      cases hab : a.bodd <;> cases hbb : b.bodd <;> simp [hab, hbb] at ha hb ⊢ <;>
        rw [mul_assoc] at hk <;> omega
    refine ⟨hodd, k, ?_⟩
    rw [hodd] at ha
    rw [mul_assoc] at hk
    omega
  · rintro ⟨hodd, k, hk⟩
    refine ⟨k, ?_⟩
    rw [hodd] at ha
    rw [mul_assoc]
    omega

/-- Two integers agree modulo a power of two when they agree in the bits below it. -/
lemma modEq_two_pow_iff {a b : Int} : a ≡ b [ZMOD 2 ^ n] ↔ ∀ k < n, a.testBit k = b.testBit k := by
  induction n generalizing a b with
  | zero => simp [modEq_one]
  | succ n ih =>
    have hzero (x : Int) : x.testBit 0 = x.bodd := by
      conv_lhs => rw [← bit_decomp x]
      exact testBit_bit_zero _ _
    have hsucc (x : Int) (k : Nat) : x.testBit (k + 1) = x.div2.testBit k := by
      conv_lhs => rw [← bit_decomp x]
      exact testBit_bit_succ _ _ _
    rw [modEq_two_pow_succ, ih]
    constructor
    · rintro ⟨hodd, hrest⟩ (_ | k) hk
      · rw [hzero, hzero, hodd]
      · rw [hsucc, hsucc, hrest k (by omega)]
    · intro hall
      refine ⟨?_, fun k hk => ?_⟩
      · rw [← hzero, ← hzero, hall 0 (by omega)]
      · rw [← hsucc, ← hsucc, hall (k + 1) (by omega)]

lemma toNat_bits_modEq {f : Bool → Bool → Bool} {combine : UInt64 → UInt64 → UInt64}
    {exact : Int → Int → Int}
    (hcombine : ∀ v w k, (combine v w).toNat.testBit k = f (v.toNat.testBit k) (w.toNat.testBit k))
    (hexact : ∀ x y k, (exact x y).testBit k = f (x.testBit k) (y.testBit k))
    (hx : (v.toNat : Int) ≡ x [ZMOD 2 ^ 64]) (hy : (w.toNat : Int) ≡ y [ZMOD 2 ^ 64]) :
    ((combine v w).toNat : Int) ≡ exact x y [ZMOD 2 ^ 64] := by
  rw [modEq_two_pow_iff] at hx hy ⊢
  intro k hk
  rw [hexact, ← hx k hk, ← hy k hk]
  exact hcombine v w k

end Word

namespace Code.OperandType

/-- The low bytes of a word, which are all that counts of it in a type. -/
def low (type : OperandType) (w : UInt64) : Nat := w.toNat % 2 ^ (8 * type.width)

/-- Arithmetic on the registers of a type is that on the integers in them, modulo the width. -/
structure Exact (type : OperandType) : Prop where
  /-- A word holds the integer of the type that has its low bytes. -/
  read : ∀ w, type.Represents (type.read w) ∧
    type.read w ≡ w.toNat [ZMOD 2 ^ (8 * type.width)]
  binary : ∀ op lhs rhs, ∀ n ∈ op.result? (type.read lhs) (type.read rhs),
    ∃ w, Machine.binary (.arith op) type lhs rhs = .ok w ∧
      (w.toNat : Int) ≡ n [ZMOD 2 ^ (8 * type.width)]
  /-- The only fault is that of a division whose divisor has no low byte but zero. -/
  binary_error : ∀ op lhs rhs fault, Machine.binary (.arith op) type lhs rhs = .error fault ↔
    fault = .divisionByZero ∧ (op = .div ∨ op = .rem) ∧ type.low rhs = 0
  binary_low : ∀ op lhs lhs' rhs rhs', type.low lhs = type.low lhs' → type.low rhs = type.low rhs' →
    (Machine.binary (.arith op) type lhs rhs).map type.low =
      (Machine.binary (.arith op) type lhs' rhs').map type.low
  negate : ∀ w, ∃ v, unary .negate type w = .ok v ∧
    (v.toNat : Int) ≡ -type.read w [ZMOD 2 ^ (8 * type.width)]
  complement : ∀ w, ∃ v, unary .bitwiseNot type w = .ok v ∧
    (v.toNat : Int) ≡ -type.read w - 1 [ZMOD 2 ^ (8 * type.width)]
  unary_low : ∀ op w w', type.low w = type.low w' →
    (unary op type w).map type.low = (unary op type w').map type.low
  compare : ∀ relation lhs rhs, ∃ b, Machine.compare (.compare relation) type lhs rhs = .ok b ∧
    (b = true ↔ relation.Holds (type.read lhs) (type.read rhs))
  isZero : ∀ w, Machine.isZero type w = true ↔ type.read w = 0
  /-- Merging takes the low bytes of the result and all others from what was there. -/
  merge : ∀ previous result, type.low (merge previous result type.width) = type.low result ∧
    (merge previous result type.width).toNat / 2 ^ (8 * type.width) =
      previous.toNat / 2 ^ (8 * type.width)
  /-- A conversion gives the 64-bit form of an integer of the target, which is the integer itself if
  the target has it and has the same low bytes in any case. -/
  convert : ∀ target : OperandType, target.IsInteger → ∀ w, ∃ v,
    Machine.convert w type target = .ok v ∧ (v.toNat : Int) ≡ target.read v [ZMOD 2 ^ 64] ∧
    target.read v ≡ type.read w [ZMOD 2 ^ (8 * target.width)] ∧
    (target.Represents (type.read w) → target.read v = type.read w)

variable {type : OperandType}

/-! ## Words and integers -/

lemma toNat_word (n : Int) : ((word n).toNat : Int) ≡ n [ZMOD 2 ^ 64] := by
  have hmod : n.bmod (2 ^ 64) ≡ n [ZMOD 2 ^ 64] := bmod_emod (x := n) (m := 2 ^ 64)
  rw [word, Word.toNat_toUInt64, Int64.toInt_ofInt]
  exact (mod_modEq _ _).trans hmod

lemma read_eq_reduce_iff {n : Int} :
    type.read w = type.reduce n ↔ (w.toNat : Int) ≡ n [ZMOD 2 ^ (8 * type.width)] := by
  refine ⟨fun heq => ?_, reduce_congr⟩
  calc (w.toNat : Int) ≡ type.reduce w.toNat [ZMOD 2 ^ (8 * type.width)] :=
        (type.reduce_modEq _).symm
    _ = type.reduce n := heq
    _ ≡ n [ZMOD 2 ^ (8 * type.width)] := type.reduce_modEq n

lemma low_eq_iff : type.low v = type.low w ↔ type.read v = type.read w := by
  rw [show type.read w = type.reduce w.toNat from rfl, read_eq_reduce_iff, low, low]
  exact_mod_cast Iff.rfl

/-! ## Exact results -/

/-- Arithmetic at the width of a type is exact arithmetic with a cut at the end. -/
lemma arith_eq_result (h : type.IsInteger) (op : ArithOp) (x y : Int) :
    type.arith op x y =
      match op.result? x y with
      | some n => .ok (type.reduce n)
      | none => .error .divisionByZero := by
  have hbits {f : Bool → Bool → Bool} {combine : UInt64 → UInt64 → UInt64}
      {exact : Int → Int → Int}
      (hcombine : ∀ v w k,
        (combine v w).toNat.testBit k = f (v.toNat.testBit k) (w.toNat.testBit k))
      (hexact : ∀ x y k, (exact x y).testBit k = f (x.testBit k) (y.testBit k)) :
      type.reduce (combine (word x) (word y)).toNat = type.reduce (exact x y) :=
    reduce_congr ((Word.toNat_bits_modEq hcombine hexact (toNat_word x) (toNat_word y)).of_dvd
      (pow_dvd_word h))
  cases op with
  | add | sub | mul | shl | shr => rfl
  | div | rem =>
    simp only [arith, ArithOp.result?]
    split <;> rfl
  | band => exact congrArg Except.ok (hbits (fun _ _ _ => Nat.testBit_and ..) testBit_land)
  | bor => exact congrArg Except.ok (hbits (fun _ _ _ => Nat.testBit_or ..) testBit_lor)
  | bxor => exact congrArg Except.ok (hbits (fun _ _ _ => Nat.testBit_xor ..) testBit_lxor)

lemma exists_binary_ok (h : type.IsInteger)
    (hn : n ∈ op.result? (type.read lhs) (type.read rhs)) :
    ∃ w, Machine.binary (.arith op) type lhs rhs = .ok w ∧
      (w.toNat : Int) ≡ n [ZMOD 2 ^ (8 * type.width)] := by
  have hmap := map_read_binary h op lhs rhs
  rw [arith_eq_result h, Option.mem_def.1 hn] at hmap
  obtain ⟨w, hw, hread⟩ := ok_of_map hmap
  exact ⟨w, hw, read_eq_reduce_iff.1 hread⟩

lemma result?_eq_none_iff {op : ArithOp} {x y : Int} :
    op.result? x y = none ↔ (op = .div ∨ op = .rem) ∧ y = 0 := by
  cases op <;> simp [ArithOp.result?]

lemma binary_eq_error_iff (h : type.IsInteger) (op : ArithOp) (lhs rhs : UInt64) (fault : Fault) :
    Machine.binary (.arith op) type lhs rhs = .error fault ↔
      fault = .divisionByZero ∧ (op = .div ∨ op = .rem) ∧ type.low rhs = 0 := by
  have hmap := map_read_binary h op lhs rhs
  rw [arith_eq_result h] at hmap
  rw [low, ← read_eq_zero_iff, ← result?_eq_none_iff (x := type.read lhs)]
  cases hresult : op.result? (type.read lhs) (type.read rhs) with
  | some n =>
    obtain ⟨w, hw, -⟩ := exists_binary_ok h hresult
    simp [hw]
  | none =>
    rw [hresult] at hmap
    cases hbinary : Machine.binary (.arith op) type lhs rhs with
    | ok w =>
      rw [hbinary] at hmap
      cases hmap
    | error fault' =>
      rw [hbinary] at hmap
      cases hmap
      simp [eq_comm]

lemma map_low_eq {r r' : Except Fault UInt64} (h : r.map type.read = r'.map type.read) :
    r.map type.low = r'.map type.low := by
  cases r <;> cases r' <;> simp_all [Except.map, low_eq_iff]

lemma map_low_unary (h : type.IsInteger) (op : Opcode) (hw : type.low w = type.low w') :
    (unary op type w).map type.low = (unary op type w').map type.low := by
  rw [low_eq_iff] at hw
  cases op with
  | negate => exact map_low_eq (by rw [map_read_negate h, map_read_negate h, hw])
  | bitwiseNot => exact map_low_eq (by rw [map_read_bitwiseNot h, map_read_bitwiseNot h, hw])
  | _ => rcases h.kind with hkind | hkind <;> simp [unary, hkind]

lemma toNat_merge_div (h : type.IsInteger) (previous result : UInt64) :
    (merge previous result type.width).toNat / 2 ^ (8 * type.width) =
      previous.toNat / 2 ^ (8 * type.width) := by
  have hresult : (result &&& mask type.width).toNat / 2 ^ (8 * type.width) = 0 := by
    rw [Word.toNat_and_mask h.pos h.le]
    exact Nat.div_eq_of_lt (Nat.mod_lt _ (by positivity))
  have hprevious : (previous &&& ~~~ mask type.width).toNat / 2 ^ (8 * type.width) =
      previous.toNat / 2 ^ (8 * type.width) := by
    have hall : ∀ width < 9, 0 < width →
        (~~~ mask width).toNat / 2 ^ (8 * width) = 2 ^ (64 - 8 * width) - 1 := by decide
    have hlt : previous.toNat / 2 ^ (8 * type.width) < 2 ^ (64 - 8 * type.width) := by
      refine Nat.div_lt_of_lt_mul ?_
      rw [← pow_add, Nat.add_sub_cancel' (by have := h.le; omega)]
      exact previous.toNat_lt
    rw [UInt64.toNat_and, Nat.and_div_two_pow, hall type.width (by have := h.le; omega) h.pos,
      Nat.and_two_pow_sub_one_eq_mod, Nat.mod_eq_of_lt hlt]
  rw [Word.merge, UInt64.toNat_or, Nat.or_div_two_pow, hresult, hprevious, Nat.or_zero]

/-- Operations on the registers of an integer type are exact. -/
theorem exact_of_isInteger (h : type.IsInteger) : type.Exact where
  read w := ⟨represents_reduce h _, type.reduce_modEq _⟩
  binary op lhs rhs n hn := exists_binary_ok h hn
  binary_error := binary_eq_error_iff h
  binary_low op lhs lhs' rhs rhs' hl hr := by
    rw [low_eq_iff] at hl hr
    exact map_low_eq (by rw [map_read_binary h, map_read_binary h, hl, hr])
  negate w := by
    obtain ⟨v, hv, hread⟩ := ok_of_map (map_read_negate h w)
    exact ⟨v, hv, read_eq_reduce_iff.1 hread⟩
  complement w := by
    obtain ⟨v, hv, hread⟩ := ok_of_map (map_read_bitwiseNot h w)
    exact ⟨v, hv, read_eq_reduce_iff.1 hread⟩
  unary_low op w w' hw := map_low_unary h op hw
  compare relation lhs rhs := ⟨_, compare_eq h relation lhs rhs, relation.test_iff _ _⟩
  isZero w := by rw [isZero_eq h, decide_eq_true_iff]
  merge previous result :=
    ⟨Word.toNat_merge_mod h.pos h.le, toNat_merge_div h previous result⟩
  convert target ht w := by
    have hread : target.read (word (target.reduce (type.read w))) = target.reduce (type.read w) := by
      rw [read_word ht, reduce_reduce]
    refine ⟨_, convert_eq h ht w, ?_, ?_, fun hrep => ?_⟩
    · rw [hread]
      exact toNat_word _
    · rw [hread]
      exact target.reduce_modEq _
    · rw [hread]
      exact (reduce_eq_self_iff ht).2 hrep

/-- The least integer of three bytes, divided by minus one, is itself again modulo their range. -/
theorem exact_of_isInteger_i24 : IsInteger ⟨.signed, 3⟩ ∧ read ⟨.signed, 3⟩ 0x1800000 = -2 ^ 23 ∧
    ∃ w, Machine.binary (.arith .div) ⟨.signed, 3⟩ 0x1800000 0x2ffffff = .ok w ∧
      (w.toNat : Int) ≡ 2 ^ 23 [ZMOD 2 ^ (8 * 3)] := by
  have hint : IsInteger ⟨.signed, 3⟩ := ⟨.inl rfl, by decide, by decide⟩
  exact ⟨hint, by decide, (exact_of_isInteger hint).binary .div _ _ _ (by decide)⟩

end Code.OperandType

end CompilerCore
