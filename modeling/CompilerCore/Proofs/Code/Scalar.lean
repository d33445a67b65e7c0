import CompilerCore.Code.Draft
import CompilerCore.Proofs.Machine.Integers

/-!
# Integer expressions

The part of the language that computes with truth values and integers held in variables: its
meaning, given by a direct evaluation, and the rules by which its expressions have types.
-/

namespace CompilerCore

open CompilerCore.Code CompilerCore.Machine OperandType

/-! ## Evaluation -/

/-- The register form of a type that a node may have. -/
def TypeTable.operand (t : TypeTable) (type : Option TypeId) : OperandType :=
  (type.map (of t)).getD .void

/-- The value of an expression, given the values of the variables.  Every operation takes place at
the width of its node; the connectives give the operand that decides and skip the other one.  Parts
of the language that do not compute with integers count as zero. -/
def Expr.evaluate (t : TypeTable) (σ : SymbolId → Int) : Expr → Except Fault Int
  | literal note value => .ok ((t.operand note.type).reduce (value.integer?.getD 0).toInt)
  | name _ _ symbol => .ok ((symbol.map σ).getD 0)
  | binary note op lhs rhs =>
    match op with
    | .arith op => do
      let x ← lhs.evaluate t σ
      let y ← rhs.evaluate t σ
      (t.operand note.type).arith op x y
    | .compare relation => do
      let x ← lhs.evaluate t σ
      let y ← rhs.evaluate t σ
      return (relation.test x y).toInt
    | .and => do
      let x ← lhs.evaluate t σ
      if x = 0 then return x else rhs.evaluate t σ
    | .or => do
      let x ← lhs.evaluate t σ
      if x = 0 then rhs.evaluate t σ else return x
  | unary note op operand => do
    let x ← operand.evaluate t σ
    match op with
    | .negate => return (t.operand note.type).reduce (-x)
    | .complement => return (t.operand note.type).reduce (-x - 1)
    | .not => return (decide (x = 0)).toInt
    | .deref | .address | .step .. => return 0
  | conditional _ condition yes no => do
    let x ← condition.evaluate t σ
    if x = 0 then no.evaluate t σ else yes.evaluate t σ
  | cast _ operand target _ => do
    let x ← operand.evaluate t σ
    if t.isBool target && !operand.type?.any t.isBool then return (decide (x ≠ 0)).toInt
    else return (of t target).reduce x
  | member .. | qualified .. | call .. | index .. | collection .. | assign .. | update ..
  | declare .. | sizeOf .. => .ok 0

/-- The variable whose register an expression hands on instead of a copy. -/
def Expr.handed? (t : TypeTable) : Expr → Option SymbolId
  | name _ _ symbol => symbol
  | cast _ operand target _ =>
    if t.isBool target && !operand.type?.any t.isBool then none
    else if t.operand operand.type? = of t target then operand.handed? t
    else none
  | literal .. | binary .. | unary .. | conditional .. | member .. | qualified .. | call .. | index ..
  | collection .. | assign .. | update .. | declare .. | sizeOf .. => none

/-! ## Types -/

/-- A node whose type is a primitive one. -/
def TypeTable.IsPrimitive (t : TypeTable) (type : Option TypeId) (p : Primitive) : Prop :=
  ∃ id, type = some id ∧ t.shape id = .builtin p

/-- The primitive type of an integer expression over variables of given types.  The operands of an
operation have the type in which it takes place; only the count of a shift may have another. -/
inductive Expr.Scalar (t : TypeTable) (vars : SymbolId → Option Primitive) :
    Expr → Primitive → Prop where
  | literal {note : Note} {value : Literal} {n : Int64} {p : Primitive} :
    t.IsPrimitive note.type p → p.isInteger = true → value.integer? = some n →
    Scalar t vars (.literal note value) p
  | name {note : Note} {text : String} {x : SymbolId} {p : Primitive} :
    t.IsPrimitive note.type p → p.isInteger = true → vars x = some p →
    Scalar t vars (.name note text (some x)) p
  | arith {note : Note} {op : ArithOp} {lhs rhs : Expr} {p q : Primitive} :
    t.IsPrimitive note.type p → Scalar t vars lhs p → Scalar t vars rhs q →
    (op.group ≠ .shift → q = p) → Scalar t vars (.binary note (.arith op) lhs rhs) p
  | compare {note : Note} {relation : Relation} {lhs rhs : Expr} {p : Primitive} :
    t.IsPrimitive note.type .bool → Scalar t vars lhs p → Scalar t vars rhs p →
    Scalar t vars (.binary note (.compare relation) lhs rhs) .bool
  | connective {note : Note} {op : BinaryOp} {lhs rhs : Expr} :
    op = .and ∨ op = .or → t.IsPrimitive note.type .bool → Scalar t vars lhs .bool →
    Scalar t vars rhs .bool → Scalar t vars (.binary note op lhs rhs) .bool
  | negation {note : Note} {op : UnaryOp} {operand : Expr} {p : Primitive} :
    op = .negate ∨ op = .complement → t.IsPrimitive note.type p → Scalar t vars operand p →
    Scalar t vars (.unary note op operand) p
  | not {note : Note} {operand : Expr} {p : Primitive} :
    t.IsPrimitive note.type .bool → Scalar t vars operand p →
    Scalar t vars (.unary note .not operand) .bool
  | conditional {note : Note} {condition yes no : Expr} {p q : Primitive} :
    t.IsPrimitive note.type p → Scalar t vars condition q → Scalar t vars yes p →
    Scalar t vars no p → Scalar t vars (.conditional note condition yes no) p
  | cast {note : Note} {operand : Expr} {target : TypeId} {isImplicit : Bool} {p q : Primitive} :
    t.IsPrimitive note.type p → t.IsPrimitive (some target) p → p.isInteger = true →
    Scalar t vars operand q → Scalar t vars (.cast note operand target isImplicit) p

namespace Expr.Scalar

variable {t : TypeTable} {vars : SymbolId → Option Primitive} {e : Expr} {p : Primitive}

lemma isPrimitive (h : e.Scalar t vars p) : t.IsPrimitive e.type? p := by
  cases h <;> assumption

lemma isInteger (h : e.Scalar t vars p) : p.isInteger = true := by
  induction h with
  | literal _ hp _ | name _ hp _ | cast _ _ hp _ => exact hp
  | arith _ _ _ _ ih => exact ih
  | compare | connective | not => rfl
  | negation _ _ _ ih => exact ih
  | conditional _ _ _ _ _ ih => exact ih

end Expr.Scalar

lemma Code.OperandType.isInteger_ofPrimitive (h : p.isInteger = true) :
    (ofPrimitive p).IsInteger := by
  cases p with
  | void | float => cases h
  | bool => exact isInteger_bool
  | signed width => cases width <;> exact ⟨.inl rfl, by decide, by decide⟩
  | unsigned width => cases width <;> exact ⟨.inr rfl, by decide, by decide⟩

lemma Code.OperandType.isVoid_eq_false {type : OperandType} (h : type.IsInteger) :
    type.isVoid = false := by
  have := h.pos
  simp only [isVoid, beq_eq_false_iff_ne]
  omega

namespace TypeTable

variable {t : TypeTable} {id : TypeId} {p : Primitive}

lemma operand_of_builtin (h : t.shape id = .builtin p) : of t id = .ofPrimitive p := by
  rw [of, underlying_eq_self (by rw [h]; exact nofun), h]

lemma IsPrimitive.operand (h : t.IsPrimitive type p) : t.operand type = .ofPrimitive p := by
  obtain ⟨id, rfl, hid⟩ := h
  exact operand_of_builtin hid

end TypeTable

lemma Expr.evaluate_of_integer? {e : Expr} (h : e.Scalar t vars p) (hn : e.integer? = some n)
    (σ : SymbolId → Int) : e.evaluate t σ = .ok ((ofPrimitive p).read n.toUInt64) := by
  have hint := isInteger_ofPrimitive h.isInteger
  cases e with
  | literal note value =>
    have hvalue : value.integer? = some n := hn
    have hprim : t.IsPrimitive note.type p := h.isPrimitive
    rw [evaluate, hvalue, hprim.operand, read_toUInt64 hint]
    rfl
  | _ => cases hn

end CompilerCore
