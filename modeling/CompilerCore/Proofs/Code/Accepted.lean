import CompilerCore.Proofs.Code.Connected
import CompilerCore.Proofs.Code.Functions
import CompilerCore.Proofs.Tree.Equality

/-!
# Accepted programs compute what they say

A function of an accepted program whose nodes only compute with integers has the types that
compilation relies on, before lowering and after it.  Hence its code does what its expressions and
statements mean.
-/

namespace CompilerCore

open CompilerCore.Code CompilerCore.Machine OperandType Option Demo Stmt Note Bool TypeId

/-! ## Integer expressions -/

/-- Whether a node has the type of truth values or of integers of some width. -/
def TypeTable.isIntegerPrimitive (t : TypeTable) (type : Option TypeId) : Bool :=
  type.any fun id =>
    match t.shape id with
    | .builtin p => p.isInteger
    | _ => false

variable {t : TypeTable} {p : Primitive}

lemma Note.kind?_eq_primitive_iff {note : Note} :
    note.kind? t = some (.primitive p) ↔ t.IsPrimitive note.type p := by
  unfold kind? TypeTable.IsPrimitive
  cases note.type with
  | none => simp
  | some =>
    simp only [map_some, some.injEq, exists_eq_left', TypeTable.kind]
    exact ⟨Shape.eq_builtin_of_kind, fun h => by rw [h]; rfl⟩

namespace Expr

variable {t : TypeTable} {scopes : ScopeTree} {vars : SymbolId → Option Primitive} {e : Expr}
  {p q : Primitive}

/-- Whether a node computes an integer from those of its parts or of a variable. -/
def isIntegerNode (t : TypeTable) (vars : SymbolId → Option Primitive) (e : Expr) : Bool :=
  t.isIntegerPrimitive e.type? &&
    match e with
    | literal _ value => value.integer?.isSome
    | name _ _ symbol => symbol.any fun x => (vars x).isSome
    | binary .. | conditional .. | cast .. => true
    | unary _ op _ => op = .negate || op = .complement || op = .not
    | _ => false

/-- Whether an expression computes an integer, without side effects. -/
def isIntegerExpr (t : TypeTable) (vars : SymbolId → Option Primitive) (e : Expr) : Bool :=
  e.nodes.all (isIntegerNode t vars)

lemma isIntegerExpr_iff :
    e.isIntegerExpr t vars = true ↔ e.All fun n => n.isIntegerNode t vars = true :=
  List.all_eq_true

lemma isPrimitive_of_isIntegerNode (h : e.isIntegerNode t vars = true) :
    ∃ p, t.IsPrimitive e.type? p ∧ p.isInteger = true := by
  have htype := (and_eq_true_iff.1 h).1
  obtain ⟨id, hid, hshape⟩ := (any_eq_true _ _).1 htype
  split at hshape
  · next p hp => exact ⟨p, ⟨id, hid, hp⟩, hshape⟩
  · cases hshape

namespace Scalar

lemma kind?_eq (h : e.Scalar t vars p) : e.kind? t = some (.primitive p) :=
  kind?_eq_primitive_iff.2 h.isPrimitive

lemma hasIntegers (h : e.Scalar t vars p) : e.HasIntegers t :=
  ⟨_, h.kind?_eq, h.isInteger⟩

lemma eq_of_kind? (h : e.Scalar t vars p) (hkind : e.kind? t = some (.primitive q)) : p = q := by
  rw [h.kind?_eq] at hkind
  exact Kind.primitive.inj (some.inj hkind)

lemma of_coherent
    (hvars : ∀ x q, vars x = some q →
      ∃ type, (scopes.symbol x).type = some type ∧ t.shape type = .builtin q)
    (hcoh : e.All (Coherent t scopes)) (hnodes : e.All fun n => n.isIntegerNode t vars = true) :
    ∃ p, e.Scalar t vars p := by
  induction e using Expr.induction with
  | literal =>
    obtain ⟨p, hp, hint⟩ := isPrimitive_of_isIntegerNode hnodes.self
    obtain ⟨n, hn⟩ := isSome_iff_exists.1 (and_eq_true_iff.1 hnodes.self).2
    exact ⟨p, .literal hp hint hn⟩
  | name _ _ symbol =>
    obtain ⟨p, hp, hint⟩ := isPrimitive_of_isIntegerNode hnodes.self
    obtain ⟨x, rfl, hx⟩ := (any_eq_true _ _).1 (and_eq_true_iff.1 hnodes.self).2
    obtain ⟨q, hq⟩ := isSome_iff_exists.1 hx
    obtain ⟨type, htype, hshape⟩ := hvars x q hq
    -- The node has the type of its symbol.
    obtain ⟨type', htype', hkind⟩ := all_name.1 hcoh
    obtain rfl : type = type' := some.inj (htype.symm.trans htype')
    have hpq : (Kind.primitive p) = .primitive q := by
      have hnote := kind?_eq_primitive_iff.2 hp
      rw [TypeTable.kind, hshape] at hkind
      exact some.inj (hnote.symm.trans hkind)
    obtain rfl := Kind.primitive.inj hpq
    exact ⟨p, .name hp hint hq⟩
  | binary _ op _ _ ihl ihr =>
    obtain ⟨p, hp, -⟩ := isPrimitive_of_isIntegerNode hnodes.self
    obtain ⟨hnode, hcl, hcr⟩ := all_binary.1 hcoh
    obtain ⟨-, hnl, hnr⟩ := all_binary.1 hnodes
    obtain ⟨pl, hl⟩ := ihl hcl hnl
    obtain ⟨pr, hr⟩ := ihr hcr hnr
    have hnote := kind?_eq_primitive_iff.2 hp
    cases op with
    | arith =>
      obtain ⟨hkind, hother⟩ := hnode.1 hl.hasIntegers hr.hasIntegers
      obtain rfl := hl.eq_of_kind? (hkind.trans hnote)
      exact ⟨_, .arith hp hl hr fun hshift => hr.eq_of_kind? ((hother hshift).trans hnote)⟩
    | compare =>
      obtain rfl := hr.eq_of_kind? (hnode.1 ▸ hl.kind?_eq)
      exact ⟨_, .compare (kind?_eq_primitive_iff.1 hnode.2) hl hr⟩
    | and =>
      obtain rfl := hl.eq_of_kind? hnode.1
      obtain rfl := hr.eq_of_kind? hnode.2.1
      exact ⟨_, .connective (.inl rfl) (kind?_eq_primitive_iff.1 hnode.2.2) hl hr⟩
    | or =>
      obtain rfl := hl.eq_of_kind? hnode.1
      obtain rfl := hr.eq_of_kind? hnode.2.1
      exact ⟨_, .connective (.inr rfl) (kind?_eq_primitive_iff.1 hnode.2.2) hl hr⟩
  | unary _ _ _ ih =>
    obtain ⟨p, hp, -⟩ := isPrimitive_of_isIntegerNode hnodes.self
    obtain ⟨hnode, hc⟩ := all_unary.1 hcoh
    obtain ⟨q, hq⟩ := ih hc (all_unary.1 hnodes).2
    have hnote := kind?_eq_primitive_iff.2 hp
    have hop := (and_eq_true_iff.1 hnodes.self).2
    simp only [or_eq_true, decide_eq_true_eq] at hop
    obtain (rfl | rfl) | rfl := hop
    · obtain rfl := hq.eq_of_kind? (.trans hnode hnote)
      exact ⟨_, .negation (.inl rfl) hp hq⟩
    · obtain rfl := hq.eq_of_kind? (hnode.1.trans hnote)
      exact ⟨_, .negation (.inr rfl) hp hq⟩
    · exact ⟨_, .not (kind?_eq_primitive_iff.1 hnode) hq⟩
  | conditional _ _ _ _ ihc ihy ihn =>
    obtain ⟨p, hp, -⟩ := isPrimitive_of_isIntegerNode hnodes.self
    obtain ⟨⟨hkindy, hkindn⟩, hcc, hcy, hcn⟩ := all_conditional.1 hcoh
    obtain ⟨-, hnc, hny, hnn⟩ := all_conditional.1 hnodes
    have hnote := kind?_eq_primitive_iff.2 hp
    obtain ⟨q, hc⟩ := ihc hcc hnc
    obtain ⟨py, hy⟩ := ihy hcy hny
    obtain ⟨pn, hn⟩ := ihn hcn hnn
    obtain rfl := hy.eq_of_kind? (hkindy.trans hnote)
    obtain rfl := hn.eq_of_kind? (hkindn.trans hnote)
    exact ⟨_, .conditional hp hc hy hn⟩
  | cast _ _ target _ ih =>
    obtain ⟨p, hp, hint⟩ := isPrimitive_of_isIntegerNode hnodes.self
    obtain ⟨hnode, hc⟩ := all_cast.1 hcoh
    obtain ⟨q, hq⟩ := ih hc (all_cast.1 hnodes).2
    have htgt : t.kind target = .primitive p :=
      some.inj (hnode.symm.trans (kind?_eq_primitive_iff.2 hp))
    exact ⟨p, .cast hp ⟨target, rfl, Shape.eq_builtin_of_kind htgt⟩ hint hq⟩
  | _ => exact absurd (and_eq_true_iff.1 hnodes.self).2 (by simp)

end Scalar

end Expr

/-! ## Values -/

lemma Code.OperandType.reduce_of_arith {type : OperandType} {op : ArithOp} {x y v : Int}
    (h : type.arith op x y = .ok v) : type.reduce v = v := by
  have hres {n : Int} (h : (.ok (type.reduce n) : Except Fault Int) = .ok v) :
      type.reduce v = v := by
    cases h
    exact type.reduce_reduce n
  cases op with
  | div | rem =>
    simp only [arith] at h
    split at h
    · cases h
    · exact hres h
  | _ => exact hres h

lemma Code.OperandType.reduce_bool_toInt {b : Bool} :
    (ofPrimitive .bool).reduce b.toInt = b.toInt := by
  cases b <;> rfl

namespace Expr

variable {t : TypeTable} {vars : SymbolId → Option Primitive} {σ : SymbolId → Int}

lemma eq_divisionByZero_of_evaluate {e : Expr} (h : e.evaluate t σ = .error fault) :
    fault = .divisionByZero := by
  induction e using Expr.induction with
  | binary _ op _ _ ihl ihr =>
    cases op with
    | arith =>
      obtain h | ⟨x, -, h⟩ := error_of_bind h
      · exact ihl h
      obtain h | ⟨y, -, h⟩ := error_of_bind h
      · exact ihr h
      · exact eq_divisionByZero_of_arith h
    | compare =>
      obtain h | ⟨x, -, h⟩ := error_of_bind h
      · exact ihl h
      obtain h | ⟨y, -, h⟩ := error_of_bind h
      · exact ihr h
      · cases h
    | and =>
      obtain h | ⟨x, -, h⟩ := error_of_bind h
      · exact ihl h
      split at h
      · cases h
      · exact ihr h
    | or =>
      obtain h | ⟨x, -, h⟩ := error_of_bind h
      · exact ihl h
      split at h
      · exact ihr h
      · cases h
  | unary _ op _ ih =>
    obtain h | ⟨x, -, h⟩ := error_of_bind h
    · exact ih h
    · cases op <;> cases h
  | conditional _ _ _ _ ihc ihy ihn =>
    obtain h | ⟨x, -, h⟩ := error_of_bind h
    · exact ihc h
    split at h
    · exact ihn h
    · exact ihy h
  | cast _ _ _ _ ih =>
    obtain h | ⟨x, -, h⟩ := error_of_bind h
    · exact ih h
    split at h <;> cases h
  | _ => cases h

/-- The value of an integer expression fits its type, provided that those of the variables do. -/
lemma Scalar.reduce_evaluate
    (hσ : ∀ x q, vars x = some q → (ofPrimitive q).reduce (σ x) = σ x) {e : Expr}
    (he : e.Scalar t vars p) (h : e.evaluate t σ = .ok v) :
    (ofPrimitive p).reduce v = v := by
  induction he generalizing v with
  | literal hp =>
    cases h
    rw [hp.operand, reduce_reduce]
  | name _ _ hx =>
    cases h
    exact hσ _ _ hx
  | arith hp =>
    obtain ⟨x, -, h⟩ := ok_of_bind h
    obtain ⟨y, -, h⟩ := ok_of_bind h
    rw [hp.operand] at h
    exact reduce_of_arith h
  | compare =>
    obtain ⟨x, -, h⟩ := ok_of_bind h
    obtain ⟨y, -, h⟩ := ok_of_bind h
    cases h
    exact reduce_bool_toInt
  | connective hop _ _ _ ihl ihr =>
    obtain rfl | rfl := hop
    · obtain ⟨x, hx, h⟩ := ok_of_bind h
      split at h
      · cases h
        exact ihl hx
      · exact ihr h
    · obtain ⟨x, hx, h⟩ := ok_of_bind h
      split at h
      · exact ihr h
      · cases h
        exact ihl hx
  | negation hop hp =>
    obtain rfl | rfl := hop
    · obtain ⟨x, -, h⟩ := ok_of_bind h
      cases h
      rw [hp.operand, reduce_reduce]
    · obtain ⟨x, -, h⟩ := ok_of_bind h
      cases h
      rw [hp.operand, reduce_reduce]
  | not =>
    obtain ⟨x, -, h⟩ := ok_of_bind h
    cases h
    exact reduce_bool_toInt
  | conditional _ _ _ _ _ ihy ihn =>
    obtain ⟨x, -, h⟩ := ok_of_bind h
    split at h
    · exact ihn h
    · exact ihy h
  | cast _ htgt =>
    obtain ⟨x, -, h⟩ := ok_of_bind h
    obtain ⟨id, hid, hshape⟩ := htgt
    cases hid
    split at h
    · next hbool =>
      cases h
      have hpbool := (and_eq_true_iff.1 hbool).1
      rw [TypeTable.isBool, hshape, decide_eq_true_eq] at hpbool
      cases hpbool
      exact reduce_bool_toInt
    · cases h
      rw [TypeTable.operand_of_builtin hshape, reduce_reduce]

end Expr

lemma Function.reduce_entry (f : Function) (args : List UInt64) (hx : vars x = some p) :
    (ofPrimitive p).reduce (f.entry vars args x) = f.entry vars args x := by
  unfold Function.entry
  rw [hx]
  split
  · next q w hq _ =>
    obtain rfl : p = q := some.inj hq
    exact reduce_reduce _ _
  · exact reduce_zero _

/-! ## Integer statements -/

namespace Stmt

variable {t : TypeTable} {scopes : ScopeTree} {vars : SymbolId → Option Primitive} {result : TypeId}

/-- Whether a statement declares, assigns, tests or returns integers, or passes control to a label. -/
def isIntegerNode (t : TypeTable) (vars : SymbolId → Option Primitive) : Stmt → Bool
  | expr _ (.declare _ x (some value)) | expr _ (.assign _ (.name _ _ (some x)) value) =>
    (vars x).isSome && value.isIntegerExpr t vars
  | branch _ e _ _ | switch _ e _ (some _) => e.isIntegerExpr t vars
  | ret _ value => value.all (·.isIntegerExpr t vars)
  | block .. | seq .. | goto .. | label .. | empty _ => true
  | _ => false

section

variable {labels : List String} (hvars : ∀ x q, vars x = some q →
    ∃ type, (scopes.symbol x).type = some type ∧ t.shape type = .builtin q)

include hvars

lemma exists_scalar_of_kind {note : Note} {value : Expr} (hx : (vars x).isSome = true)
    (hnode : value.isIntegerExpr t vars = true)
    (hsym : ∃ type, (scopes.symbol x).type = some type ∧ note.kind? t = some (t.kind type))
    (hvalue : value.All (Expr.Coherent t scopes)) (hkind : value.kind? t = note.kind? t) :
    note.type.isSome = true ∧ ∃ type p, (scopes.symbol x).type = some type ∧
      t.shape type = .builtin p ∧ vars x = some p ∧ value.Scalar t vars p := by
  obtain ⟨p, hp⟩ := isSome_iff_exists.1 hx
  obtain ⟨type, htype, hshape⟩ := hvars x p hp
  obtain ⟨type', htype', hnote⟩ := hsym
  obtain rfl : type = type' := some.inj (htype.symm.trans htype')
  obtain ⟨q, hq⟩ := Expr.Scalar.of_coherent hvars hvalue (Expr.isIntegerExpr_iff.1 hnode)
  have hprimitive : note.kind? t = some (.primitive p) := by
    rw [hnote, TypeTable.kind, hshape]
    rfl
  obtain ⟨id, hid, -⟩ := kind?_eq_primitive_iff.1 hprimitive
  obtain rfl := hq.eq_of_kind? (hkind.trans hprimitive)
  exact ⟨hid ▸ rfl, type, q, htype, hshape, hp, hq⟩

lemma Scalar.expr_of_coherent {tok : Token} (hcoh : e.All (Expr.Coherent t scopes))
    (hnode : (expr tok e).isIntegerNode t vars = true) :
    (expr tok e).Scalar { scopes, types := t } vars result (· ∈ labels) := by
  cases e with
  | declare _ _ init =>
    cases init with
    | none => cases hnode
    | some =>
      obtain ⟨hx, hvalue⟩ := and_eq_true_iff.1 hnode
      obtain ⟨⟨hsym, hkind⟩, hcv⟩ := Expr.all_declare.1 hcoh
      obtain ⟨hnote, type, p, htype, hshape, hp, hscal⟩ := exists_scalar_of_kind hvars hx hvalue
        hsym (hcv _ rfl) (hkind _ rfl)
      exact .declare hnote htype hshape hp hscal
  | assign note target =>
    obtain ⟨⟨-, hnote, hkind⟩, hct, hcv⟩ := Expr.all_assign.1 hcoh
    cases target with
    | name _ _ symbol =>
      cases symbol with
      | none => cases hnode
      | some =>
        obtain ⟨hx, hvalue⟩ := and_eq_true_iff.1 hnode
        obtain ⟨htgt, type, p, -, -, hp, hscal⟩ := exists_scalar_of_kind hvars hx hvalue
          (Expr.all_name.1 hct) hcv (hkind rfl)
        have hsome : note.type.isSome = true := by
          simpa [kind?, Expr.kind?, Expr.note, htgt] using congrArg isSome hnote
        exact .assign hsome htgt hp hscal
    | _ => cases hnode
  | _ => cases hnode

lemma Scalar.of_coherent {s : Stmt} (hcoh : s.All (Coherent t scopes result))
    (hnodes : s.All fun n => n.isIntegerNode t vars = true)
    (hjumps : s.All fun n => ∀ label ∈ n.targets, label ∈ labels) :
    s.Scalar { scopes, types := t } vars result (· ∈ labels) := by
  have hexpr {e : Expr} (hc : e.All (Expr.Coherent t scopes)) (he : e.isIntegerExpr t vars = true) :
      ∃ p, e.Scalar t vars p :=
    Expr.Scalar.of_coherent hvars hc (Expr.isIntegerExpr_iff.1 he)
  induction s using induction with
  | expr => exact expr_of_coherent hvars (all_expr.1 hcoh) (all_expr.1 hnodes)
  | block _ _ _ ih =>
    exact .block fun s hs => ih s hs ((all_block.1 hcoh).2 s hs) ((all_block.1 hnodes).2 s hs)
      ((all_block.1 hjumps).2 s hs)
  | seq _ _ ih =>
    exact .seq fun s hs => ih s hs ((all_seq.1 hcoh).2 s hs) ((all_seq.1 hnodes).2 s hs)
      ((all_seq.1 hjumps).2 s hs)
  | branch _ _ _ no ihy ihn =>
    obtain ⟨hc, hcy, hcn⟩ := all_branch.1 hcoh
    obtain ⟨hi, hiy, hin⟩ := all_branch.1 hnodes
    obtain ⟨-, hjy, hjn⟩ := all_branch.1 hjumps
    obtain ⟨p, hp⟩ := hexpr hc hi
    cases no with
    | none => exact .branch hp (ihy hcy hiy hjy)
    | some no =>
      exact .branchElse hp (ihy hcy hiy hjy) (ihn no rfl (hcn no rfl) (hin no rfl) (hjn no rfl))
  | ret _ value =>
    cases value with
    | none => exact .ret
    | some e =>
      obtain ⟨hc, hkind⟩ := all_ret.1 hcoh e rfl
      obtain ⟨p, hp⟩ := hexpr hc (all_ret.1 hnodes)
      have hres : t.kind result = .primitive p :=
        some.inj (hkind.symm.trans hp.kind?_eq)
      exact .retValue (Shape.eq_builtin_of_kind hres) hp
  | switch _ _ _ own ih =>
    obtain ⟨hc, hcb⟩ := all_switch.1 hcoh
    obtain ⟨hi, hib⟩ := all_switch.1 hnodes
    obtain ⟨hj, hjb⟩ := all_switch.1 hjumps
    cases own with
    | none => cases hi
    | some =>
      obtain ⟨p, hp⟩ := hexpr hc hi
      exact .switch hp
        (fun _ hcase => hj _ (.tail _ (List.mem_append_left _ (List.mem_map_of_mem hcase))))
        (fun _ hname => hj _ (.tail _ (List.mem_append_right _ (mem_toList.2 hname)))) (hj _ (.head _))
        (ih hcb hib hjb)
  | goto => exact .goto (all_goto.1 hjumps _ (.head _))
  | label => exact .label
  | empty => exact .empty
  | _ => cases All.self hnodes

end

end Stmt

/-! ## Functions of accepted programs -/

lemma Program.integers_typed (p : Program) (types : TypeTable) (x : SymbolId) (q : Primitive)
    (hx : p.integers types x = some q) :
    ∃ type, (p.scopes.symbol x).type = some type ∧ types.shape type = .builtin q :=
  (p.integers_eq_some hx).2.2.2

lemma Program.mem_items_of_function? {p : Program} {name : String} {f : Function}
    (h : p.function? name = some f) : .function f ∈ p.items := by
  obtain ⟨i, hi, hfound⟩ := List.mem_filterMap.1 (List.mem_of_find?_eq_some h)
  cases i with
  | function =>
    cases hfound
    exact hi
  | global => cases hfound

lemma Function.Scalar.of_coherent {p : Program} (hcoh : ∀ i ∈ p.items, i.Coherent types p.scopes)
    (hf : p.function? f.name = some f)
    (hnodes : f.body.All fun n => n.isIntegerNode types (p.integers types) = true)
    (hjumps : f.body.All fun s => ∀ label ∈ s.targets, label ∈ f.body.labels)
    (hres : types.isAggregate f.returnType = false) :
    f.Scalar { scopes := p.scopes, types } (p.integers types) :=
  ⟨hres, .of_coherent (p.integers_typed types) (hcoh _ (p.mem_items_of_function? hf)) hnodes hjumps⟩

/-! ### Functions that return the value of an expression -/

/-- How a body ends that returns the value of an expression. -/
def Meaning.outcome {σ ε : Type} (M : Meaning σ ε) (e : Expr) (s : σ) : Outcome σ ε :=
  match M.eval e s with
  | .ok (n, s') => .returned (some n) s'
  | .error fault => .failed fault

lemma Goto.ends_return (M : Meaning σ ε) (tok token' : Token) (scope : ScopeId) (e : Expr) (s : σ) :
    Goto.Ends M (.block tok scope [.ret token' (some e)]) s (M.outcome e s) := by
  refine StateTransition.mem_eval.2 ⟨?_, rfl⟩
  refine .tail (.single (b := .running [.ret token' (some e)] s) rfl) ?_
  simp only [Goto.step, Goto.stmt, afterEval, Meaning.outcome]
  cases M.eval e s with
  | ok => rfl
  | error => rfl

lemma Expr.Scalar.answer_outcome {vars : SymbolId → Option Primitive} (he : e.Scalar t vars p)
    (hσ : ∀ x q, vars x = some q → (ofPrimitive q).reduce (σ x) = σ x) :
    ((Meaning.integers t).outcome e σ).answer =
      (e.evaluate t σ).map fun v => extend (word v) (.ofPrimitive p) := by
  rw [Meaning.outcome, Meaning.integers_eval he]
  cases hv : e.evaluate t σ with
  | error => rfl
  | ok v =>
    have hword := extend_word (isInteger_ofPrimitive he.isInteger) v
    rw [he.reduce_evaluate hσ hv] at hword
    exact congrArg Except.ok hword.symm

lemma TypeTable.isAggregate_of_builtin {id : TypeId} (h : t.shape id = .builtin p) :
    t.isAggregate id = false := by
  simp [isAggregate, isArray, isRecord, h]

/-- A function of an accepted program that returns the value of an expression on integers.  Given
enough steps, a run of its code answers the 64-bit form of the value; it faults exactly if evaluation
does, which is at a division by zero. -/
theorem Program.run_return {p : Program} {types : TypeTable} (hp : p.IsBuilt types)
    {config : Config} {diagnostics : Diagnostics} {accepted : Analysis.Outcome}
    (hanalyze : p.analyze config types diagnostics = accepted) {waves : Nat}
    (hok : accepted.result = .ok waves) {m : Module} {f : Function} {s : State}
    {arguments : List UInt64} (hcall : accepted.program.Invokes accepted.types m f s arguments)
    {token token' : Token} {scope : ScopeId} {e : Expr}
    (hbody : f.body = .block token scope [.ret token' (some e)])
    (he : e.isIntegerExpr accepted.types (accepted.program.integers accepted.types) = true) :
    let value := e.evaluate accepted.types
      (f.entry (accepted.program.integers accepted.types) arguments)
    (∃ least, ∀ limit ≥ least, (s.run m limit f.name arguments).1 = value.map fun v =>
      extend (OperandType.word v) (OperandType.of accepted.types f.returnType)) ∧
      ∀ fault, value = .error fault → fault = .divisionByZero := by
  obtain ⟨-, hcoherent⟩ := hp.analyze hanalyze hok
  have hitem := hcoherent _ (mem_items_of_function? hcall.function)
  rw [Item.Coherent, Item.statement, hbody] at hitem
  obtain ⟨hce, hkind⟩ := all_ret.1 ((all_block.1 hitem).2 _ (.head _)) e rfl
  -- The expression and the result have one primitive type.
  obtain ⟨q, hq⟩ := Expr.Scalar.of_coherent (integers_typed _ _) hce (Expr.isIntegerExpr_iff.1 he)
  have hshape : accepted.types.shape f.returnType = .builtin q :=
    Shape.eq_builtin_of_kind (Option.some.inj (hkind.symm.trans hq.kind?_eq))
  have hscalar : f.Scalar { scopes := accepted.program.scopes, types := accepted.types }
      (accepted.program.integers accepted.types) := by
    refine ⟨TypeTable.isAggregate_of_builtin hshape, ?_⟩
    rw [hbody]
    exact .block (List.forall_mem_singleton.2 (.retValue hshape hq))
  refine ⟨?_, fun fault => Expr.eq_divisionByZero_of_evaluate⟩
  rw [TypeTable.operand_of_builtin hshape,
    ← hq.answer_outcome fun x q hx => f.reduce_entry arguments hx]
  refine (hcall.run_iff_ends hscalar _).1 ⟨_, ?_, rfl⟩
  rw [hbody]
  exact Goto.ends_return _ token token' scope e _

/-- The expression of a body that only returns its value. -/
def Stmt.returned? : Stmt → Option Expr
  | block _ _ [ret _ value] => value
  | _ => none

lemma Stmt.eq_of_returned? {s : Stmt} (h : s.returned? = some e) :
    ∃ tok scope token', s = .block tok scope [.ret token' (some e)] := by
  unfold returned? at h
  split at h
  · next tok scope token' value =>
    cases h
    exact ⟨tok, scope, token', rfl⟩
  · cases h

/-- The function `i64 mix(i8 a, u16 b, i64 c) { return c && b < c ? a / b : c << a; }`. -/
def mix : Program × Session :=
  (Session.start {}).build "mix" do
    Build.function "mix" TypeId.i64
      [{ name := "a", type := i8 }, { name := "b", type := Primitive.index (.unsigned .w16) },
        { name := "c", type := TypeId.i64 }] do
      let less ← binary (.compare .lt) (← ident "b") (← ident "c")
      let condition ← binary .and (← ident "c") less
      let quotient ← binary (.arith .div) (← ident "a") (← ident "b")
      let shifted ← binary (.arith .shl) (← ident "c") (← ident "a")
      let choice ← Build.expr (.conditional · condition quotient shifted)
      return [← giveBack choice]

def acceptedMix : Analysis.Outcome := mix.1.analyze {} mix.2.types []

/-- The bytes of an argument above the type of its parameter do not count. -/
theorem Program.run_return_mix :
    ∃ m, acceptedMix.program.compile acceptedMix.types "mix" = .ok m ∧
      (∃ least, ∀ limit ≥ least,
        ((State.start 64).run m limit "mix" [0xAAF9, 0xBBBB0002, 5]).1 = .ok 32764) ∧
      ∃ least, ∀ limit ≥ least,
        ((State.start 64).run m limit "mix" [0xAAF9, 0xBBBB0000, 5]).1 = .error .divisionByZero := by
  obtain ⟨m, hm, hinit, hframe⟩ : ∃ m, acceptedMix.program.compile acceptedMix.types "mix" = .ok m ∧
      (((State.start 64).reset m).initializeStatics m 0).1 = .ok () ∧
      ∀ method ∈ m.methods, method.name = "mix" → method.frameBytes < 2 ^ 64 := by
    decide +kernel
  obtain ⟨f, hf, hname, hlength, htype, e, he, hinteger, hvalue, hfault⟩ :
      ∃ f, acceptedMix.program.function? "mix" = some f ∧ f.name = "mix" ∧ f.parameters.length = 3 ∧
        f.returnType = TypeId.i64 ∧ ∃ e, f.body.returned? = some e ∧
          let vars := acceptedMix.program.integers acceptedMix.types
          e.isIntegerExpr acceptedMix.types vars = true ∧
            e.evaluate acceptedMix.types (f.entry vars [0xAAF9, 0xBBBB0002, 5]) = .ok 32764 ∧
            e.evaluate acceptedMix.types (f.entry vars [0xAAF9, 0xBBBB0000, 5]) =
              .error .divisionByZero := by
    decide +kernel
  have hresult : OperandType.of acceptedMix.types TypeId.i64 = .ofPrimitive (.signed .w64) := by
    decide +kernel
  have haccepted : mix.1.analyze {} mix.2.types [] = acceptedMix := rfl
  have hok : acceptedMix.result = .ok 1 := by decide +kernel
  obtain ⟨token, scope, token', hbody⟩ := eq_of_returned? he
  rw [← hname] at hf hframe
  have hrun (arguments : List UInt64) (harguments : arguments.length = f.parameters.length) :=
    (run_return (by decide +kernel : mix.1.IsBuilt mix.2.types) haccepted hok
      ⟨⟨_, hm⟩, hf, by rw [hname]; decide, .start 64, ⟨0, _, Prod.ext hinit rfl⟩, hframe, harguments⟩ hbody hinteger).1
  refine ⟨m, hm, ?_, ?_⟩
  · have h := hrun [0xAAF9, 0xBBBB0002, 5] hlength.symm
    rw [hvalue, hname, htype, hresult] at h
    exact h
  · have h := hrun [0xAAF9, 0xBBBB0000, 5] hlength.symm
    rw [hfault, hname] at h
    exact h

/-- Variables `i32 z = 0` and `i32 g = 1 / z`, and the function `i32 f(i32 x) { return x; }`. -/
def ratio : Program × Session :=
  (Session.start {}).build "ratio" do
    let _ ← Build.global "z" (some i32) (some (← int 0))
    let quotient ← binary (.arith .div) (← int 1) (← ident "z")
    let _ ← Build.global "g" (some i32) (some quotient)
    Build.function "f" i32 [{ name := "x", type := i32 }] do
      return [← giveBack (← ident "x")]

def acceptedRatio : Analysis.Outcome := ratio.1.analyze {} ratio.2.types []

/-- A run never comes to the function if a variable cannot be initialized. -/
theorem Program.run_return_ratio :
    ratio.1.IsBuilt ratio.2.types ∧ acceptedRatio.result = .ok 1 ∧
      ∃ m f e, acceptedRatio.program.compile acceptedRatio.types "ratio" = .ok m ∧
        acceptedRatio.program.function? "f" = some f ∧ f.body.returned? = some e ∧
        (let vars := acceptedRatio.program.integers acceptedRatio.types
        e.isIntegerExpr acceptedRatio.types vars = true ∧
          e.evaluate acceptedRatio.types (f.entry vars [5]) = .ok 5) ∧
        ∀ limit ≥ 100, ((State.start 64).run m limit "f" [5]).1 = .error .divisionByZero := by
  obtain ⟨f, hf, e, he, hfacts⟩ : ∃ f, acceptedRatio.program.function? "f" = some f ∧
      ∃ e, f.body.returned? = some e ∧
        let vars := acceptedRatio.program.integers acceptedRatio.types
        e.isIntegerExpr acceptedRatio.types vars = true ∧
          e.evaluate acceptedRatio.types (f.entry vars [5]) = .ok 5 := by
    decide +kernel
  obtain ⟨m, hm, hrun⟩ : ∃ m, acceptedRatio.program.compile acceptedRatio.types "ratio" = .ok m ∧
      ((State.start 64).run m 100 "f" [5]).1 = .error .divisionByZero := by
    decide +kernel
  refine ⟨by decide +kernel, by decide +kernel, m, f, e, hm, hf, he, hfacts, fun limit hle => ?_⟩
  rw [(run_of_le hle (by simp [hrun])).1, hrun]

/-! ### Lowered functions -/

mutual

/-- Whether a statement ends with a return, inside of blocks or not. -/
def Stmt.endsInReturn : Stmt → Bool
  | ret .. => true
  | block _ _ body | seq _ body => endsInReturnIn body
  | _ => false

def Stmt.endsInReturnIn : List Stmt → Bool
  | [] => false
  | s :: rest => if rest.isEmpty then s.endsInReturn else endsInReturnIn rest

end

/-- At the end of a method, a statement is spared exactly one jump: that of the return that it ends
with. -/
lemma Code.Gen.stmt_false {c : Env} (s : Stmt) : stmt c s false =
    if s.endsInReturn then (do stmt c s true; jump leaveLabel) else stmt c s true := by
  have hlist (ss : List Stmt) (ih : ∀ s ∈ ss, stmt c s false =
      if s.endsInReturn then (do stmt c s true; jump leaveLabel) else stmt c s true) :
      stmts c ss false = if endsInReturnIn ss then (do stmts c ss true; jump leaveLabel)
        else stmts c ss true := by
    induction ss with
    | nil => rfl
    | cons s rest ihr =>
      cases rest with
      | nil => simp [stmts, endsInReturnIn, ih s (.head _)]
      | cons next rest =>
        have hrest := ihr fun s hs => ih s (.tail _ hs)
        have hends : endsInReturnIn (s :: next :: rest) = endsInReturnIn (next :: rest) := rfl
        have hmore (isTail : Bool) : stmts c (s :: next :: rest) isTail =
            (do stmt c s false; stmts c (next :: rest) isTail) := by
          cases isTail <;> rfl
        rw [hmore, hmore, hrest, hends]
        cases endsInReturnIn (next :: rest) <;> simp
  induction s using induction with
  | block _ _ body ih => exact hlist body ih
  | seq _ body ih => exact hlist body ih
  | ret _ value => cases value <;> simp [stmt, endsInReturn]
  | branch _ _ _ no => cases no <;> rfl
  | _ => rfl

/-- A function of an accepted program that computes with integers once it has been lowered.  If the
variables of the program can be initialized, a run of its code answers what the run of its body ends
with, if it has an end, and exhausts every limit of steps otherwise.  A return is followed by nothing:
it jumps to the end of the method, unless it is there already, which spares it just that jump. -/
theorem Program.run_lowered_iff_ends {p : Program} {types : TypeTable} (hp : p.IsBuilt types)
    (hformed : ∀ i ∈ p.items, i.Formed p.scopes) {config : Config} {diagnostics : Diagnostics}
    {accepted : Analysis.Outcome} (hanalyze : p.analyze config types diagnostics = accepted) {waves : Nat}
    (hok : accepted.result = .ok waves) {lowered : Program}
    (hlower : (accepted.program.lower accepted.types config).2 = lowered) {given f : Function}
    (hgiven : accepted.program.function? given.name = some given)
    (hflat : (given.flatten accepted.types lowered.scopes config.maxLoweringPasses).IsFlat accepted.types
      lowered.scopes)
    (hfrom : given.lowered accepted.types lowered.scopes config.maxLoweringPasses = f) {m : Module}
    {s : State} {arguments : List UInt64} (hcall : lowered.Invokes accepted.types m f s arguments)
    (hnodes : f.body.All fun n =>
      n.isIntegerNode accepted.types (lowered.integers accepted.types) = true)
    (hresult : accepted.types.isAggregate f.returnType = false) :
    (∀ x, (∃ outcome, Goto.Ends (Meaning.integers accepted.types) f.body
        (f.entry (lowered.integers accepted.types) arguments) outcome ∧ outcome.answer = x) ↔
      ∃ least, ∀ limit ≥ least, (s.run m limit f.name arguments).1 = x) ∧
    ∀ s : Stmt,
      let c : Env := { scopes := lowered.scopes, types := accepted.types }
      Gen.stmt c s false =
        if s.endsInReturn then (do Gen.stmt c s true; Gen.jump leaveLabel) else Gen.stmt c s true := by
  obtain ⟨hsound, -, hwellTyped⟩ := hp.wellTyped hanalyze hok
  have hshaped := (hp.shaped hformed hanalyze hok _ (mem_items_of_function? hgiven)).2
  have hlowered : ∀ i ∈ lowered.items, i.Coherent accepted.types lowered.scopes := by
    rw [← hlower]
    intro i hi
    obtain ⟨given, hgiven, rfl⟩ := mem_lower.1 hi
    exact ((hwellTyped given hgiven).lower hsound _).coherent
  have hjumps : f.body.All fun s => ∀ label ∈ s.targets, label ∈ f.body.labels :=
    hfrom ▸ (Function.lowered_finished hflat hshaped).arrives
  have hscalar := Function.Scalar.of_coherent hlowered hcall.function hnodes hjumps hresult
  exact ⟨hcall.run_iff_ends hscalar, Gen.stmt_false⟩

/-- The function `i32 gcd(i32 a, i32 b)` with the body
`while (b) { i32 r = a % b; a = b; b = r; } switch (a) { case 1: return -1; } return a;`. -/
def gcd : Program × Session :=
  (Session.start {}).build "gcd" do
    Build.function "gcd" i32
      [{ name := "a", type := i32 }, { name := "b", type := i32 }] do
      let condition ← ident "b"
      let body ← Build.block do
        let rest ← binary (.arith .rem) (← ident "a") (← ident "b")
        let declaration ← Build.localVar "r" (some i32) (some rest)
        let first ← assign (← ident "a") (← ident "b")
        let second ← assign (← ident "b") (← ident "r")
        return [declaration, ← perform first, ← perform second]
      let loop ← Build.stmt (.whileLoop · condition body)
      let selector ← ident "a"
      let arms ← Build.block do
        let one ← int 1
        let label ← Build.stmt (.caseLabel · one)
        return [label, ← giveBack (← int (-1))]
      let choice ← Build.stmt (.switch · selector arms none)
      return [loop, choice, ← giveBack (← ident "a")]

def acceptedGcd : Analysis.Outcome := gcd.1.analyze {} gcd.2.types []

def loweredGcd : Program := (acceptedGcd.program.lower acceptedGcd.types {}).2

theorem Program.run_lowered_iff_ends_gcd :
    ∃ m given f, loweredGcd.compile acceptedGcd.types "gcd" = .ok m ∧
      acceptedGcd.program.function? "gcd" = some given ∧
      given.lowered acceptedGcd.types loweredGcd.scopes 32 = f ∧ f.body.labels ≠ [] ∧ f.body.endsInReturn = true ∧
      ∀ a b x, (∃ outcome, Goto.Ends (Meaning.integers acceptedGcd.types) f.body
          (f.entry (loweredGcd.integers acceptedGcd.types) [a, b]) outcome ∧ outcome.answer = x) ↔
        ∃ least, ∀ limit ≥ least, ((State.start 64).run m limit "gcd" [a, b]).1 = x := by
  obtain ⟨m, hm, hinit, hframe⟩ : ∃ m, loweredGcd.compile acceptedGcd.types "gcd" = .ok m ∧
      (((State.start 64).reset m).initializeStatics m 0).1 = .ok () ∧
      ∀ method ∈ m.methods, method.name = "gcd" → method.frameBytes < 2 ^ 64 := by
    decide +kernel
  obtain ⟨given, hgiven, hflat, hfacts⟩ : ∃ given, acceptedGcd.program.function? "gcd" = some given ∧
      (given.flatten acceptedGcd.types loweredGcd.scopes 32).IsFlat acceptedGcd.types
        loweredGcd.scopes ∧
      let f := given.lowered acceptedGcd.types loweredGcd.scopes 32
      loweredGcd.function? "gcd" = some f ∧ f.name = "gcd" ∧ f.parameters.length = 2 ∧
        f.body.labels ≠ [] ∧ f.body.endsInReturn = true ∧
        (f.body.All fun n =>
          n.isIntegerNode acceptedGcd.types (loweredGcd.integers acceptedGcd.types) = true) ∧
        acceptedGcd.types.isAggregate f.returnType = false := by
    decide +kernel
  have hok : acceptedGcd.result = .ok 1 := by decide +kernel
  generalize hfrom : given.lowered acceptedGcd.types loweredGcd.scopes 32 = f at hfacts
  obtain ⟨hf, hname, hlength, hlabels, hreturns, hnodes, hresult⟩ := hfacts
  have hgiven' : acceptedGcd.program.function? given.name = some given := by
    rw [← hgiven, ← hname, ← hfrom]
    rfl
  have hanalyze : gcd.1.analyze {} gcd.2.types [] = acceptedGcd := rfl
  have hlower : (acceptedGcd.program.lower acceptedGcd.types {}).2 = loweredGcd := rfl
  refine ⟨m, given, f, hm, hgiven, hfrom, hlabels, hreturns, fun a b => ?_⟩
  rw [← hname] at hf hframe ⊢
  exact (run_lowered_iff_ends (by decide +kernel : gcd.1.IsBuilt gcd.2.types) (by decide +kernel)
    hanalyze hok hlower hgiven' hflat hfrom ⟨⟨_, hm⟩, hf, by rw [hname]; decide, .start 64,
      ⟨0, _, Prod.ext hinit rfl⟩, hframe, by exact hlength.symm⟩ hnodes hresult).1

def loweredRatio : Program := (acceptedRatio.program.lower acceptedRatio.types {}).2

/-- The body of the lowered function ends, but no run comes to it. -/
theorem Program.run_lowered_ratio :
    ratio.1.IsBuilt ratio.2.types ∧ acceptedRatio.result = .ok 1 ∧
      ∃ m f, loweredRatio.compile acceptedRatio.types "ratio" = .ok m ∧
        loweredRatio.function? "f" = some f ∧
        (f.body.All fun n =>
          n.isIntegerNode acceptedRatio.types (loweredRatio.integers acceptedRatio.types) = true) ∧
        (∃ outcome, Goto.Ends (Meaning.integers acceptedRatio.types) f.body
          (f.entry (loweredRatio.integers acceptedRatio.types) [5]) outcome ∧ outcome.answer = .ok 5) ∧
        ∀ limit ≥ 100, ((State.start 64).run m limit "f" [5]).1 = .error .divisionByZero := by
  obtain ⟨f, hf, e, he, hnodes, hanswer⟩ : ∃ f, loweredRatio.function? "f" = some f ∧
      ∃ e, f.body.returned? = some e ∧
        let vars := loweredRatio.integers acceptedRatio.types
        (f.body.All fun n => n.isIntegerNode acceptedRatio.types vars = true) ∧
          ((Meaning.integers acceptedRatio.types).outcome e (f.entry vars [5])).answer = .ok 5 := by
    decide +kernel
  obtain ⟨token, scope, token', hbody⟩ := eq_of_returned? he
  obtain ⟨m, hm, hrun⟩ : ∃ m, loweredRatio.compile acceptedRatio.types "ratio" = .ok m ∧
      ((State.start 64).run m 100 "f" [5]).1 = .error .divisionByZero := by
    decide +kernel
  refine ⟨by decide +kernel, by decide +kernel, m, f, hm, hf, hnodes,
    ⟨_, hbody ▸ Goto.ends_return _ token token' scope e _, hanswer⟩, fun limit hle => ?_⟩
  rw [(run_of_le hle (by simp [hrun])).1, hrun]

end CompilerCore
