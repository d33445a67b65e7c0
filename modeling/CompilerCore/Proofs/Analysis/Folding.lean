import CompilerCore.Analysis.Fold
import CompilerCore.Code.Representation
import CompilerCore.Proofs.Machine.Integers
import Mathlib.Tactic.Ring

/-!
# Folding against the machine

Folding computes with exact integers that it cuts to the width of a type; the machine computes with
64-bit words of which only the low bytes count.  This file compares the two on the integers.

* `Fold.binary_eq`, `Fold.unary?_eq`, `Fold.cast?_eq` — folding in terms of `OperandType.arith` and
  `OperandType.reduce`, in terms of which the machine has been described.
-/

namespace CompilerCore

open CompilerCore.Code CompilerCore.Machine CompilerCore.Word OperandType TypeId

/-! ## Integer types -/

/-- The built-in type of integers of a width. -/
def Primitive.whole (width : IntWidth) (isSigned : Bool) : Primitive :=
  if isSigned then .signed width else .unsigned width

namespace Code.OperandType

abbrev whole (width : IntWidth) (isSigned : Bool) : OperandType :=
  ofPrimitive (.whole width isSigned)

variable {width : IntWidth} {isSigned : Bool}

lemma isInteger_whole : (whole width isSigned).IsInteger := by
  cases isSigned <;> cases width <;> exact ⟨by decide, by decide, by decide⟩

lemma width_whole : (whole width isSigned).width = width.bytes := by
  cases isSigned <;> rfl

lemma kind_whole : (whole width isSigned).kind = .signed ↔ isSigned = true := by
  cases isSigned
  · exact ⟨nofun, nofun⟩
  · exact ⟨fun _ => rfl, fun _ => rfl⟩

end Code.OperandType

/-- A type of integers, or an enum over one. -/
def TypeTable.IsWhole (t : TypeTable) (type : TypeId) (width : IntWidth) (isSigned : Bool) : Prop :=
  t.shape (t.underlying type) = .builtin (.whole width isSigned)

namespace TypeTable.IsWhole

variable {t : TypeTable} {type : TypeId} {width : IntWidth} {isSigned : Bool}
  (h : t.IsWhole type width isSigned)
include h

lemma operand : of t type = .ofPrimitive (.whole width isSigned) := by
  unfold IsWhole at h
  simp [of, h]

lemma isInteger : (of t type).IsInteger := by
  rw [h.operand]
  exact isInteger_whole

lemma scalar : t.scalar? type = some (.integer width isSigned) := by
  unfold IsWhole at h
  cases isSigned <;> simp [TypeTable.scalar?, h, Primitive.whole]

/-- Such a type is none of those that are represented by themselves and hold no integers. -/
lemma shape_ne {shape : Shape} (hshape : t.shape type = shape)
    (henum : ∀ base, shape ≠ .enum base) : shape = .builtin (.whole width isSigned) := by
  subst hshape
  unfold IsWhole at h
  rwa [TypeTable.underlying_eq_self henum] at h

lemma shape_ne_builtin {p : Primitive} (hp : ∀ width isSigned, p ≠ .whole width isSigned) :
    t.shape type ≠ .builtin p :=
  fun hshape => hp width isSigned (Shape.builtin.inj (h.shape_ne hshape nofun))

lemma not_isVoid : t.isVoid type = false :=
  decide_eq_false (h.shape_ne_builtin (by rintro _ (_ | _) ⟨⟩))

lemma not_isBool : t.isBool type = false :=
  decide_eq_false (h.shape_ne_builtin (by rintro _ (_ | _) ⟨⟩))

lemma not_isPointer : t.isPointer type = false := by
  unfold TypeTable.isPointer
  split
  · next target hptr => cases h.shape_ne hptr nofun
  · rfl

end TypeTable.IsWhole

namespace Fold

variable {width : IntWidth} {isSigned : Bool}

/-! ## Folding as arithmetic on integers -/

lemma reduce_eq : reduce width isSigned n = (whole width isSigned).reduce n := by
  cases isSigned <;> rfl

lemma wrap_eq (n : Int) :
    wrap width isSigned n = Int64.ofInt ((whole width isSigned).reduce n) := by
  rw [wrap, reduce_eq]

lemma ofInt_eq : Int64.ofInt n = (word n).toInt64 := rfl

lemma reduce_toInt {a : Int64} :
    reduce width isSigned a.toInt = (whole width isSigned).read a.toUInt64 := by
  rw [reduce_eq, read_toUInt64 isInteger_whole]

/-- The literal of a result of arithmetic. -/
def ofArith : Except Fault Int → Except FoldError Int64
  | .ok n => .ok (Int64.ofInt n)
  | .error _ => .error .divisionByZero

/-- Arithmetic is folded as the machine performs it, but for the number by which a shift goes: that
is taken modulo the width of the type. -/
lemma integerArith_eq (op : ArithOp) (a b : Int64) : integerArith width isSigned op a b =
      ofArith ((whole width isSigned).arith op
        ((whole width isSigned).read a.toUInt64)
        (if op.group = .shift then b.toInt % (8 * width.bytes)
          else (whole width isSigned).read b.toUInt64)) := by
  have hint : (whole width isSigned).IsInteger := isInteger_whole
  have hreduced (w : UInt64) : (whole width isSigned).reduce
      ((whole width isSigned).read w) = (whole width isSigned).read w :=
    reduce_reduce ..
  have hcount : (b.toInt % (8 * width.bytes)) % 64 = b.toInt % (8 * width.bytes) := by
    cases width <;> simp only [IntWidth.bytes] <;> omega
  have hbits {f : UInt64 → UInt64 → UInt64} (hf) :=
    word_reduce_bits (f := f) hint hf (hreduced a.toUInt64) (hreduced b.toUInt64)
  unfold integerArith
  simp only [reduce_toInt, wrap_eq]
  cases op with
  | add | sub | mul => rfl
  | div | rem =>
    simp only [ArithOp.group, reduceCtorEq, if_false, arith]
    split <;> rfl
  | shl =>
    simp only [ArithOp.group, if_true, arith, hcount]
    rfl
  | shr =>
    simp only [ArithOp.group, if_true, arith, hcount]
    rw [Int.fdiv_eq_ediv_of_nonneg _ (show 0 ≤ Int.pow 2 _ from Int.pow_nonneg (by decide))]
    rfl
  | band =>
    refine congrArg Except.ok ?_
    rw [ofInt_eq, ofInt_eq, ofInt_eq, ← UInt64.toInt64_and, ← hbits (extend_and hint)]
    rfl
  | bor =>
    refine congrArg Except.ok ?_
    rw [ofInt_eq, ofInt_eq, ofInt_eq, ← UInt64.toInt64_or, ← hbits (extend_or hint)]
    rfl
  | bxor =>
    refine congrArg Except.ok ?_
    rw [ofInt_eq, ofInt_eq, ofInt_eq, ← UInt64.toInt64_xor, ← hbits (extend_xor hint)]
    rfl

/-! ## The same outcome -/

/-- Folding gives the literal of what the machine computes, or both find a division by zero. -/
def SameOutcome (type : OperandType) (folded : Except FoldError (Option Literal))
    (computed : Except Fault UInt64) : Prop :=
  (∃ w, computed = .ok w ∧ folded = .ok (some (.integer (extend w type).toInt64))) ∨
    computed = .error .divisionByZero ∧ folded = .error .divisionByZero

variable {t : TypeTable} {type : TypeId}

section

variable (h : t.IsWhole type width isSigned)
include h

lemma binary_arith_eq : binary t (.arith op) type (.integer a) (.integer b) =
      (integerArith width isSigned op a b).map fun c => some (.integer c) := by
  simp only [binary, h.scalar, integerOf?, integerBinary]
  cases integerArith width isSigned op a b <;> rfl

lemma sameOutcome_iff :
    SameOutcome (of t type) (binary t (.arith op) type (.integer a) (.integer b))
        (Machine.binary (.arith op) (of t type) a.toUInt64 b.toUInt64) ↔
      integerArith width isSigned op a b = ofArith ((whole width isSigned).arith op
          ((whole width isSigned).read a.toUInt64)
          ((whole width isSigned).read b.toUInt64)) := by
  have hint : (whole width isSigned).IsInteger := isInteger_whole
  rw [h.operand, binary_arith_eq h, ← map_read_binary hint]
  cases hmachine : Machine.binary (.arith op) (.whole width isSigned) a.toUInt64 b.toUInt64 with
  | error =>
    have harith := map_read_binary hint op a.toUInt64 b.toUInt64
    rw [hmachine] at harith
    obtain rfl := eq_divisionByZero_of_arith harith.symm
    cases integerArith width isSigned op a b <;> simp [SameOutcome, Except.map, ofArith]
  | ok =>
    simp only [SameOutcome, extend_eq hint]
    cases integerArith width isSigned op a b <;> simp [Except.map, ofArith, ofInt_eq, eq_comm]

lemma binary_compare_eq (rel : Relation) (a b : Int64) :
    ∃ r, Machine.compare (.compare rel) (of t type) a.toUInt64 b.toUInt64 = .ok r ∧
      binary t (.compare rel) type (.integer a) (.integer b) = .ok (some (.bool r)) := by
  refine ⟨_, compare_eq h.isInteger rel a.toUInt64 b.toUInt64, ?_⟩
  simp only [binary, h.scalar, integerOf?, integerBinary, reduce_toInt, h.operand]
  rfl

/-! ## Operations on one literal -/

lemma normalize_eq : normalize t type a = Int64.ofInt ((of t type).reduce a.toInt) := by
  rw [normalize, h.scalar, h.operand]
  exact wrap_eq a.toInt

lemma toInt64_extend
    (hw : (of t type).read w = (of t type).reduce a.toInt) :
    (extend w (of t type)).toInt64 = normalize t type a := by
  rw [extend_eq h.isInteger, hw, normalize_eq h]
  rfl

/-- A literal of a type stands for the integer in its word, up to the width of a word. -/
lemma toInt_eq_bmod (ha : normalize t type a = a) :
    a.toInt = ((of t type).read a.toUInt64).bmod (2 ^ 64) := by
  calc a.toInt = (normalize t type a).toInt := by rw [ha]
    _ = ((of t type).reduce a.toInt).bmod (2 ^ 64) := by
      rw [normalize_eq h, Int64.toInt_ofInt]
      rfl
    _ = ((of t type).read a.toUInt64).bmod (2 ^ 64) := by
      rw [read_toUInt64 h.isInteger]

lemma unary?_eq (hrun : Machine.unary opcode (of t type) a.toUInt64 = .ok b.toUInt64)
    (hfold : unary? t op type (.integer a) = some (.integer (normalize t type b))) :
    ∃ w, Machine.unary opcode (of t type) a.toUInt64 = .ok w ∧ unary? t op type (.integer a) =
        some (.integer (extend w (of t type)).toInt64) := by
  refine ⟨_, hrun, ?_⟩
  rw [toInt64_extend h (read_toUInt64 h.isInteger b), hfold]

lemma unary?_not (ha : normalize t type a = a) : unary? t .not type (.integer a) =
      some (.bool (isZero (OperandType.of t type) a.toUInt64)) := by
  have hzero : a = 0 ↔ (OperandType.of t type).read a.toUInt64 = 0 := by
    rw [← ofInt_read_eq_zero h.isInteger, read_toUInt64 h.isInteger, ← normalize_eq h, ha]
  have hunary : unary? t .not type (.integer a) = some (.bool (decide (a = 0))) := by
    by_cases h0 : a = 0 <;> simp [unary?, h.scalar, truth?, integerOf?, h0]
  rw [hunary, OperandType.isZero_eq h.isInteger, decide_eq_decide.2 hzero]

lemma cast?_eq (htgt : t.IsWhole target width' isSigned') (ha : normalize t type a = a) :
    ∃ w, convert a.toUInt64 (of t type) (of t target) = .ok w ∧
      cast? t (.integer a) type target = some (.integer w.toInt64) := by
  refine ⟨_, convert_eq h.isInteger htgt.isInteger a.toUInt64, ?_⟩
  rw [← reduce_bmod htgt.isInteger, ← toInt_eq_bmod h ha, ← ofInt_eq,
    ← normalize_eq htgt]
  simp [cast?, htgt.not_isVoid, htgt.not_isBool, htgt.not_isPointer, htgt.scalar, integerOf?]

end

/-! ## Everything but shifts -/

/-- What folding makes of integer literals is what the machine makes of them: for arithmetic other
than shifts and for comparisons on all literals, and for operations and conversions of one literal
when it is normalized to its type. -/
theorem agrees_with_machine (h : t.IsWhole type width isSigned) :
    (∀ op : ArithOp, op.group ≠ .shift → ∀ a b : Int64,
      SameOutcome (OperandType.of t type) (binary t (.arith op) type (.integer a) (.integer b))
        (Machine.binary (.arith op) (OperandType.of t type) a.toUInt64 b.toUInt64)) ∧
    (∀ (relation : Relation) (a b : Int64), ∃ r,
      Machine.compare (.compare relation) (OperandType.of t type) a.toUInt64 b.toUInt64 = .ok r ∧
      binary t (.compare relation) type (.integer a) (.integer b) = .ok (some (.bool r))) ∧
    ∀ a : Int64, normalize t type a = a →
      (∃ w, Machine.unary .negate (OperandType.of t type) a.toUInt64 = .ok w ∧
        unary? t .negate type (.integer a) =
          some (.integer (extend w (OperandType.of t type)).toInt64)) ∧
      (∃ w, Machine.unary .bitwiseNot (OperandType.of t type) a.toUInt64 = .ok w ∧
        unary? t .complement type (.integer a) =
          some (.integer (extend w (OperandType.of t type)).toInt64)) ∧
      unary? t .not type (.integer a) =
        some (.bool (isZero (OperandType.of t type) a.toUInt64)) ∧
      ∀ (target : TypeId) (width' : IntWidth) (isSigned' : Bool),
        t.IsWhole target width' isSigned' →
        ∃ w, convert a.toUInt64 (OperandType.of t type) (OperandType.of t target) = .ok w ∧
          cast? t (.integer a) type target = some (.integer w.toInt64) := by
  refine ⟨fun op hop a b => ?_, binary_compare_eq h, fun a ha => ?_⟩
  · rw [sameOutcome_iff h, integerArith_eq, if_neg hop]
  · have hkind := h.isInteger.kind
    refine ⟨unary?_eq (b := -a) h ?_ ?_, unary?_eq (b := ~~~a) h ?_ ?_, unary?_not h ha,
      fun _ _ _ htarget => cast?_eq h htarget ha⟩
    · rcases hkind with hkind | hkind <;> simp [Machine.unary, hkind]
    · simp [unary?, h.scalar, integerOf?]
    · rcases hkind with hkind | hkind <;> simp [Machine.unary, hkind]
    · simp [unary?, h.scalar, integerOf?]

/-- The smallest signed byte divided by minus one, which leaves the range of the type. -/
theorem agrees_with_machine_overflow :
    (TypeTable.start 8 8).IsWhole i8 .w8 true ∧
      SameOutcome ⟨.signed, 1⟩
        (binary (TypeTable.start 8 8) (.arith .div) i8 (.integer (-128)) (.integer (-1)))
        (Machine.binary (.arith .div) ⟨.signed, 1⟩ (-128 : Int64).toUInt64 (-1 : Int64).toUInt64) := by
  have hwhole : (TypeTable.start 8 8).IsWhole i8 .w8 true := by
    unfold TypeTable.IsWhole
    decide
  exact ⟨hwhole, (agrees_with_machine hwhole).1 .div (by decide) (-128) (-1)⟩

/-! ## Shifts

Folding takes a count modulo the width of the type, the machine modulo 64.  A count that is the width
or more shifts everything out on the machine, but not in folding. -/

end Fold

namespace Code.OperandType

variable {type : OperandType}

/-- Shifting right by at least the place of the sign leaves the sign. -/
lemma div_two_pow_of_bounds (hc : m ≤ c) (hle : -2 ^ m ≤ x)
    (hlt : x < 2 ^ m) : x / 2 ^ c = if x < 0 then -1 else 0 := by
  have hpow : (2 : Int) ^ m ≤ 2 ^ c := pow_le_pow_right₀ (by decide) hc
  split
  · next hneg => exact Int.ediv_eq_neg_one_of_neg_of_le hneg (by omega)
  · next hneg => exact Int.ediv_eq_zero_of_lt (by omega) (by omega)

/-- A count that is the width or more shifts everything out to the left. -/
lemma forall_reduce_shl_iff (hk : k < 8 * type.width)
    (hkc : c < 8 * type.width → k = c) :
    (∀ w : UInt64, type.reduce (type.read w * 2 ^ k) = type.reduce (type.read w * 2 ^ c)) ↔
      c < 8 * type.width := by
  constructor
  · intro hall
    by_contra hc
    have hone : type.reduce (type.read 1 * 2 ^ k) = 0 := by
      rw [hall 1, reduce_eq_zero_iff]
      exact Dvd.dvd.mul_left (pow_dvd_pow 2 (by omega)) _
    have hmod : type.read 1 * 2 ^ k ≡ 1 * 2 ^ k [ZMOD 2 ^ (8 * type.width)] :=
      (type.reduce_modEq 1).mul_right _
    rw [reduce_congr hmod, reduce_eq_zero_iff, one_mul] at hone
    have hle := (Nat.pow_dvd_pow_iff_le_right (le_refl 2)).1 (by exact_mod_cast hone)
    omega
  · intro hc w
    rw [hkc hc]

/-- To the right it leaves the sign, which the last place of a signed number does as well. -/
lemma forall_reduce_shr_iff (h : type.IsInteger) (hk : k < 8 * type.width)
    (hkc : c < 8 * type.width → k = c) :
    (∀ w : UInt64, type.reduce (type.read w / 2 ^ k) = type.reduce (type.read w / 2 ^ c)) ↔
      c < 8 * type.width ∨ type.kind = .signed ∧ k + 1 = 8 * type.width := by
  constructor
  · intro hall
    by_contra hnot
    push Not at hnot
    obtain ⟨hc, hsign⟩ := hnot
    -- The number whose only bit is the last one that the smaller count keeps.
    have hread : type.read (word (2 ^ k)) = 2 ^ k := by
      have hnonneg : (0 : Int) ≤ 2 ^ k := by positivity
      rw [read_word h, reduce_eq_self_iff h, Represents]
      split
      · next hkind =>
        have hlt : (2 : Int) ^ k < 2 ^ (8 * type.width - 1) :=
          pow_lt_pow_right₀ (by decide) (by have := hsign hkind; omega)
        omega
      · exact ⟨hnonneg, pow_lt_pow_right₀ (by decide) hk⟩
    have hout : (2 : Int) ^ k / 2 ^ c = 0 :=
      Int.ediv_eq_zero_of_lt (by positivity) (pow_lt_pow_right₀ (by decide) (by omega))
    have hone := hall (word (2 ^ k))
    rw [hread, hout, Int.ediv_self (by positivity), reduce_eq_zero_iff.2 (dvd_zero _),
      reduce_eq_zero_iff] at hone
    have hle : 8 * type.width ≤ 0 :=
      (Nat.pow_dvd_pow_iff_le_right (le_refl 2)).1 (by exact_mod_cast hone)
    omega
  · rintro (hc | ⟨hkind, hk⟩) w
    · rw [hkc hc]
    · have hrep : type.Represents (type.read w) := represents_reduce h _
      rw [Represents, if_pos hkind] at hrep
      by_cases hc : c < 8 * type.width
      · rw [hkc hc]
      · rw [div_two_pow_of_bounds (c := k) (by omega) hrep.1 hrep.2,
          div_two_pow_of_bounds (c := c) (by omega) hrep.1 hrep.2]

end Code.OperandType

namespace Fold

variable {width : IntWidth} {isSigned : Bool} {t : TypeTable} {type : TypeId}

lemma forall_sameOutcome_shift_iff (h : t.IsWhole type width isSigned) {op : ArithOp}
    (hop : op.group = .shift) : (∀ a : Int64,
      SameOutcome (of t type) (binary t (.arith op) type (.integer a) (.integer b))
        (Machine.binary (.arith op) (of t type) a.toUInt64 b.toUInt64)) ↔
      ∀ w, (of t type).arith op ((of t type).read w)
          (b.toInt % (8 * width.bytes)) =
        (of t type).arith op ((of t type).read w) (b.toInt % 64) := by
  have hint : (whole width isSigned).IsInteger := isInteger_whole
  have hcount : (whole width isSigned).read b.toUInt64 % 64 = b.toInt % 64 % 64 := by
    rw [read_emod_64 hint, Word.toNat_toUInt64]
    omega
  -- A shift always has a result, and results of the type are told apart by their literals.
  have hinj (x y z : Int) : ofArith ((whole width isSigned).arith op x y) =
        ofArith ((whole width isSigned).arith op x z) ↔
      (whole width isSigned).arith op x y =
        (whole width isSigned).arith op x z := by
    refine ⟨fun heq => ?_, fun heq => by rw [heq]⟩
    cases op with
    | shl | shr => exact congrArg Except.ok ((ofInt_reduce_inj hint).1 (Except.ok.inj heq))
    | _ => cases hop
  have hiff (a : Int64) : SameOutcome (of t type)
        (binary t (.arith op) type (.integer a) (.integer b))
        (Machine.binary (.arith op) (of t type) a.toUInt64 b.toUInt64) ↔
      (of t type).arith op ((of t type).read a.toUInt64)
          (b.toInt % (8 * width.bytes)) =
        (of t type).arith op ((of t type).read a.toUInt64)
          (b.toInt % 64) := by
    rw [sameOutcome_iff h, integerArith_eq, if_pos hop, hinj, h.operand,
      arith_shift_congr hop _ hcount]
  simp only [hiff]
  exact ⟨fun hall w => by simpa using hall w.toInt64, fun hall a => hall a.toUInt64⟩

/-- Folding a shift by a count agrees with the machine, whatever is shifted, exactly when the count
modulo 64 is below the width of the type, or when a signed number is shifted to the right by a count
that leaves nothing but its sign in both. -/
theorem agrees_on_shifts_iff (h : t.IsWhole type width isSigned) {op : ArithOp}
    (hop : op.group = .shift) (b : Int64) :
    (∀ a : Int64,
      SameOutcome (OperandType.of t type) (binary t (.arith op) type (.integer a) (.integer b))
        (Machine.binary (.arith op) (OperandType.of t type) a.toUInt64 b.toUInt64)) ↔
      b.toInt % 64 < 8 * width.bytes ∨
        op = .shr ∧ isSigned = true ∧ b.toInt % (8 * width.bytes) + 1 = 8 * width.bytes := by
  rw [forall_sameOutcome_shift_iff h hop, h.operand]
  have hwidth : (OperandType.whole width isSigned).width = width.bytes := OperandType.width_whole
  have hmod : b.toInt % (8 * width.bytes) % 64 = b.toInt % (8 * width.bytes) ∧
      0 ≤ b.toInt % (8 * width.bytes) ∧ b.toInt % (8 * width.bytes) < 8 * width.bytes ∧
      (b.toInt % 64 < 8 * width.bytes → b.toInt % (8 * width.bytes) = b.toInt % 64) := by
    cases width <;> simp only [IntWidth.bytes] <;> omega
  obtain ⟨hsmall, hnonneg, hlt, heq⟩ := hmod
  have hk : (b.toInt % (8 * width.bytes)).toNat < 8 * (OperandType.whole width isSigned).width := by
    omega
  have hkc : (b.toInt % 64).toNat < 8 * (OperandType.whole width isSigned).width →
      (b.toInt % (8 * width.bytes)).toNat = (b.toInt % 64).toNat := fun hc => by
    rw [heq (by omega)]
  have hbelow : (b.toInt % 64).toNat < 8 * (OperandType.whole width isSigned).width ↔
      b.toInt % 64 < 8 * width.bytes := by omega
  cases op with
  | shl =>
    simp only [OperandType.arith, hsmall, Int.emod_emod, Except.ok.injEq,
      OperandType.forall_reduce_shl_iff hk hkc, hbelow, reduceCtorEq, false_and, or_false]
  | shr =>
    have hlast : (b.toInt % (8 * width.bytes)).toNat + 1 =
        8 * (OperandType.whole width isSigned).width ↔
        b.toInt % (8 * width.bytes) + 1 = 8 * width.bytes := by omega
    simp only [OperandType.arith, hsmall, Int.emod_emod, Except.ok.injEq,
      OperandType.forall_reduce_shr_iff OperandType.isInteger_whole hk hkc, hbelow, hlast,
      OperandType.kind_whole, true_and]
  | _ => cases hop

/-- A signed byte shifted to the right by 39: both leave its sign. -/
theorem agrees_on_shifts_to_sign :
    (TypeTable.start 8 8).IsWhole i8 .w8 true ∧
      ∀ a : Int64, SameOutcome ⟨.signed, 1⟩
        (binary (TypeTable.start 8 8) (.arith .shr) i8 (.integer a) (.integer 39))
        (Machine.binary (.arith .shr) ⟨.signed, 1⟩ a.toUInt64 (39 : Int64).toUInt64) := by
  have hwhole : (TypeTable.start 8 8).IsWhole i8 .w8 true := by
    unfold TypeTable.IsWhole
    decide
  exact ⟨hwhole, (agrees_on_shifts_iff hwhole rfl 39).2 (.inr (by decide))⟩

/-- A byte is shifted by nine: folding goes by one place, the machine by nine. -/
theorem disagree_on_wide_shift :
    binary (TypeTable.start 8 8) (.arith .shl) i8 (.integer 1) (.integer 9) =
        .ok (some (.integer 2)) ∧
      (Machine.binary (.arith .shl) ⟨.signed, 1⟩ 1 9).map (extend · ⟨.signed, 1⟩) = .ok 0 := by
  decide

end Fold

end CompilerCore
