import CompilerCore.Lowering.ControlFlow
import CompilerCore.Proofs.Tree.Nodes
import Mathlib.Order.Nat
import Mathlib.Tactic.Tauto

/-!
# One pass over control flow

What a pass does to its state, whatever the statement: it takes new label numbers, counts changes and
adds to the labels of the switch around it.  A pass that counts no change has changed nothing.
-/

namespace CompilerCore

open Nat

def Expr.isUpdate : Expr → Bool
  | .update .. => true
  | _ => false

lemma Expr.isUpdate_withParts {e : Expr} : (e.withParts es).isUpdate = e.isUpdate := by
  unfold withParts
  split <;> rfl

namespace ControlFlow

/-! ## Equations -/

section Equations

variable (c : Context) (st : State)

lemma stmts_cons (s : Stmt) (rest : List Stmt) : stmts c (s :: rest) st =
      ((stmt c s st).1 :: (stmts c rest (stmt c s st).2).1, (stmts c rest (stmt c s st).2).2) := rfl

section

variable (tok : Token)
include tok

lemma stmt_seq :
    stmt c (.seq tok body) st = (.seq tok (stmts c body st).1, (stmts c body st).2) := rfl

lemma stmt_branch_none {cond : Expr} {yes : Stmt} :
    stmt c (.branch tok cond yes none) st = let test := expr cond st
      let inner := stmt c yes test.2
      (.branch tok test.1 inner.1 none, inner.2) := rfl

lemma stmt_branch_some {cond : Expr} {yes no : Stmt} :
    stmt c (.branch tok cond yes (some no)) st = let test := expr cond st
      let inner := stmt c yes test.2
      let other := stmt c no inner.2
      (.branch tok test.1 inner.1 (some other.1), other.2) := rfl

lemma stmt_whileLoop {cond : Expr} {body : Stmt} :
    stmt c (.whileLoop tok cond body) st = let head := madeLabel st.nextLabel "head"
      let tail := madeLabel st.nextLabel "tail"
      let test := expr cond { st with nextLabel := st.nextLabel + 1 }
      let inner := stmt { c with breakTo := some tail, continueTo := some head } body test.2
      (.seq tok (loopStatements tok test.1 inner.1 head tail),
        { inner.2 with changes := inner.2.changes + 1 }) := rfl

lemma stmt_doLoop {cond : Expr} :
    stmt c (.doLoop tok body cond) st = let next := madeLabel st.nextLabel "next"
      let test := expr cond { st with nextLabel := st.nextLabel + 1 }
      let inner := stmt (c.loopBody next) body test.2
      (doAsWhile tok inner.1 test.1 next, { inner.2 with changes := inner.2.changes + 1 }) := rfl

lemma stmt_forLoop_none {cond step : Option Expr} {body : Stmt} :
    stmt c (.forLoop tok none cond step body) st = let next := madeLabel st.nextLabel "next"
      let test := optionExpr cond { st with nextLabel := st.nextLabel + 1 }
      let turn := optionExpr step test.2
      let inner := stmt (c.loopBody next) body turn.2
      (.seq tok (forAsWhile tok none test.1 turn.1 inner.1 next),
        { inner.2 with changes := inner.2.changes + 1 }) := rfl

lemma stmt_forLoop_some {cond step : Option Expr} :
    stmt c (.forLoop tok (some first) cond step body) st = let next := madeLabel st.nextLabel "next"
      let start := stmt c first { st with nextLabel := st.nextLabel + 1 }
      let test := optionExpr cond start.2
      let turn := optionExpr step test.2
      let inner := stmt (c.loopBody next) body turn.2
      (.seq tok (forAsWhile tok (some start.1) test.1 turn.1 inner.1 next),
        { inner.2 with changes := inner.2.changes + 1 }) := rfl

end

lemma stmt_breakLoop_some (h : c.breakTo = some label) :
    stmt c (.breakLoop tok) st = (.goto tok label, { st with changes := st.changes + 1 }) := by
  cases c
  cases h
  rfl

lemma stmt_breakLoop_none (h : c.breakTo = none) :
    stmt c (.breakLoop tok) st = (.breakLoop tok, st) := by
  cases c
  cases h
  rfl

lemma stmt_continueLoop_some (h : c.continueTo = some label) :
    stmt c (.continueLoop tok) st = (.goto tok label, { st with changes := st.changes + 1 }) := by
  cases c
  cases h
  rfl

lemma stmt_continueLoop_none (h : c.continueTo = none) :
    stmt c (.continueLoop tok) st = (.continueLoop tok, st) := by
  cases c
  cases h
  rfl

/-- The state at the start of the body of a switch that gets its labels. -/
def State.openSwitch (st : State) : State :=
  { st with
    nextLabel := st.nextLabel + 1
    switch := some ⟨st.nextLabel,
      { head := madeLabel st.nextLabel "head", tail := madeLabel st.nextLabel "tail" }⟩ }

lemma stmt_switch_none (tok : Token) (value : Expr) (body : Stmt) :
    stmt c (.switch tok value body none) st =
      let tested := expr value st
      let inner := stmt (c.switchBody (madeLabel tested.2.nextLabel "tail")) body tested.2.openSwitch
      (.switch tok tested.1 inner.1 (inner.2.switch.map (·.labels)),
        { inner.2 with switch := tested.2.switch, changes := inner.2.changes + 1 }) := rfl

lemma stmt_switch_some : stmt c (.switch tok value body (some labels)) st =
      let tested := expr value st
      let inner := stmt (c.switchBody labels.tail) body tested.2
      (.switch tok tested.1 inner.1 (some labels), inner.2) := rfl

lemma stmt_caseLabel_some (h : st.switch = some pending)
    (hv : value.integer? = some constant) :
    stmt c (.caseLabel tok value) st =
      let name := madeLabel pending.id ("case_" ++ toString pending.labels.cases.length)
      let labels := { pending.labels with cases := pending.labels.cases ++ [(name, constant)] }
      (.label tok name,
        { st with switch := some { pending with labels }, changes := st.changes + 1 }) := by
  obtain ⟨nextLabel, changes, switch⟩ := st
  cases h
  show caseLabel tok value _ = _
  simp only [caseLabel, bind, StateT.bind, get, getThe, MonadStateOf.get, StateT.get, pure, hv]
  rfl

lemma stmt_caseLabel_none (h : st.switch = none ∨ value.integer? = none) :
    stmt c (.caseLabel tok value) st = (.caseLabel tok value, st) := by
  obtain ⟨nextLabel, changes, switch⟩ := st
  show caseLabel tok value _ = _
  rcases h with h | h
  · cases h
    rfl
  · cases switch <;>
      simp only [caseLabel, bind, StateT.bind, get, getThe, MonadStateOf.get, StateT.get, pure, h] <;>
      rfl

lemma stmt_defaultLabel_some (h : st.switch = some pending) :
    stmt c (.defaultLabel tok) st = let name := madeLabel pending.id "default"
      let labels := { pending.labels with default := some name }
      (.label tok name,
        { st with switch := some { pending with labels }, changes := st.changes + 1 }) := by
  obtain ⟨nextLabel, changes, switch⟩ := st
  cases h
  rfl

lemma stmt_defaultLabel_none (h : st.switch = none) :
    stmt c (.defaultLabel tok) st = (.defaultLabel tok, st) := by
  obtain ⟨nextLabel, changes, switch⟩ := st
  cases h
  rfl

lemma stmt_expr_some (h : declaredElements? c.types e = some declared) :
    stmt c (.expr tok e) st = let expanded := expandDeclaration c e.note declared.1 declared.2 st
      (.seq tok expanded.1, { expanded.2 with changes := expanded.2.changes + 1 }) := by
  rw [stmt]
  simp only [h]
  rfl

lemma stmt_expr_none (h : declaredElements? c.types e = none) :
    stmt c (.expr tok e) st = (.expr tok (expr e st).1, (expr e st).2) := by
  rw [stmt]
  simp only [h]
  rfl

end Equations

/-! ## Expressions -/

variable {α : Type} {es : List Expr} {ss : List Stmt} {s : Stmt} {st : State}

abbrev NoUpdates : Expr → Prop := Expr.All fun n => n.isUpdate = false

/-- A computation that gives the same result in every state.  The result is as described if no change
is counted, and none is if the computation has nothing to do. -/
def Faithful (m : Lower α) (unchanged : α → Prop) (idle : Prop) : Prop :=
  ∃ a k, (k = 0 → unchanged a) ∧ (idle → k = 0) ∧ ∀ st, m st = (a, { st with changes := st.changes + k })

namespace Faithful

variable {α : Type} {m : Lower α} {P : α → Prop}

lemma pure (h : P a) : Faithful (Pure.pure a) P idle :=
  ⟨a, 0, fun _ => h, fun _ => rfl, fun _ => rfl⟩

lemma bind (h : Faithful m P idle) (hf : ∀ a, Faithful (f a) (fun b => P a → Q b) idle) :
    Faithful (m >>= f) Q idle := by
  obtain ⟨a, k, hP, hk, hm⟩ := h
  obtain ⟨b, l, hQ, hl, hrun⟩ := hf a
  refine ⟨b, k + l, fun h => hQ (by omega) (hP (by omega)), fun h => by rw [hk h, hl h], fun st => ?_⟩
  show f (m st).1 (m st).2 = _
  rw [hm, hrun]
  simp [Nat.add_assoc]

lemma change (h : ¬idle) : Faithful countChange (fun _ => False) idle :=
  ⟨(), 1, nofun, fun hidle => absurd hidle h, fun _ => rfl⟩

lemma of (h : Faithful m P idle) (himp : idle' → idle) : Faithful m P idle' := by
  obtain ⟨a, k, hP, hk, hm⟩ := h
  exact ⟨a, k, hP, fun h => hk (himp h), hm⟩

lemma eq_self (h : Faithful m (· = a) idle) (hidle : idle) (st : State) : m st = (a, st) := by
  obtain ⟨a', k, hP, hk, hm⟩ := h
  obtain rfl := hk hidle
  rw [hm, hP rfl]
  rfl

end Faithful

lemma exprs_faithful (h : ∀ e ∈ es, Faithful (expr e) (· = e) (NoUpdates e)) :
    Faithful (exprs es) (· = es) (∀ e ∈ es, NoUpdates e) := by
  induction es with
  | nil => exact .pure rfl
  | cons e _ ih =>
    rw [List.forall_mem_cons] at h
    exact (h.1.of fun h => h e (.head _)).bind fun _ =>
      ((ih h.2).of fun h e he => h e (.tail _ he)).bind fun _ =>
      .pure (by rintro rfl rfl; rfl)

/-- The last step for an expression: an update becomes an assignment. -/
def finish : Expr → Lower Expr
  | .update note op target value => do
    countChange
    return expandUpdate note op target value
  | e => return e

lemma expr_walks : Expr.Walks finish expr exprs where
  nil := rfl
  cons _ _ := rfl
  expr e := by
    cases e with
    | declare _ _ init => cases init <;> rfl
    | _ => rfl

lemma finish_faithful : Faithful (finish e) (· = e) (e.isUpdate = false) := by
  unfold finish
  split
  · exact (Faithful.change nofun).bind fun _ => .pure False.elim
  · exact .pure rfl

lemma expr_faithful (e : Expr) : Faithful (expr e) (· = e) (NoUpdates e) := by
  induction e using Expr.parts_induction with
  | step e ih =>
    rw [expr_walks.expr]
    refine ((exprs_faithful ih).of fun h => (Expr.all_iff.1 h).2).bind fun es => ?_
    obtain ⟨e', k, hunchanged, hidle, hrun⟩ := finish_faithful
    refine ⟨e', k, ?_, fun h => hidle (Expr.isUpdate_withParts.trans h.self), hrun⟩
    rintro hk rfl
    exact (hunchanged hk).trans Expr.withParts_parts

lemma optionExpr_faithful (e : Option Expr) :
    Faithful (optionExpr e) (· = e) (∀ e' ∈ e, NoUpdates e') := by
  cases e with
  | none => exact .pure rfl
  | some e =>
    exact ((expr_faithful e).of fun h => h e rfl).bind fun _ => .pure (by rintro rfl; rfl)

lemma Faithful.same (h : Faithful m P idle) (st : State) :
    (m st).2.nextLabel = st.nextLabel ∧ (m st).2.switch = st.switch := by
  obtain ⟨a, k, -, -, hrun⟩ := h
  rw [hrun]
  exact ⟨rfl, rfl⟩

lemma switch_expr (e : Expr) (st : State) : (expr e st).2.switch = st.switch :=
  ((expr_faithful e).same st).2

lemma switch_optionExpr (e : Option Expr) (st : State) : (optionExpr e st).2.switch = st.switch :=
  ((optionExpr_faithful e).same st).2

/-! ## Array declarations -/

/-- A computation that makes expression statements, the same in every state. -/
def MakesExprs (m : Lower (List Stmt)) : Prop :=
  ∃ ss k, (∀ s ∈ ss, ∃ token e, s = .expr token e) ∧
    ∀ st, m st = (ss, { st with changes := st.changes + k })

lemma MakesExprs.append (h : MakesExprs m) (h' : MakesExprs m') :
    MakesExprs (do return (← m) ++ (← m')) := by
  obtain ⟨ss, k, hss, hm⟩ := h
  obtain ⟨ss', k', hss', hm'⟩ := h'
  refine ⟨ss ++ ss', k + k', fun s hs => ?_, fun st => ?_⟩
  · exact (List.mem_append.1 hs).elim (hss s) (hss' s)
  · show ((m st).1 ++ (m' (m st).2).1, (m' (m st).2).2) = _
    rw [hm, hm']
    simp [Nat.add_assoc]

lemma assignElement_makesExprs : MakesExprs (do return [assignElement slot (← expr e)]) := by
  obtain ⟨e', k, -, -, hrun⟩ := expr_faithful e
  refine ⟨[assignElement slot e'], k, fun s hs => ⟨_, _, List.mem_singleton.1 hs⟩, fun st => ?_⟩
  show ([assignElement slot (expr e st).1], (expr e st).2) = _
  rw [hrun]

lemma expandElements_makesExprs
    (h : ∀ e ∈ es, ∀ slot, MakesExprs (expandElement t slot e)) (index : Nat) :
    MakesExprs (expandElements t array index es) := by
  induction es generalizing index with
  | nil => exact ⟨[], 0, fun s hs => absurd hs List.not_mem_nil, fun st => rfl⟩
  | cons e _ ih =>
    exact (h e (.head _) _).append (ih (fun e he => h e (.tail _ he)) (index + 1))

lemma expandElement_makesExprs (t : TypeTable) (e slot : Expr) :
    MakesExprs (expandElement t slot e) := by
  induction e using Expr.induction generalizing slot with
  | collection _ _ ih =>
    exact expandElements_makesExprs (fun e he slot => ih e he slot) 0
  | _ => exact assignElement_makesExprs

lemma expandDeclaration_makesExprs (c : Context) (note : Note) (symbol : SymbolId)
    (elems : List Expr) : MakesExprs (expandDeclaration c note symbol elems) := by
  have hparts (e : Expr) (_ : e ∈ elems) (slot : Expr) :=
    expandElement_makesExprs c.types e slot
  obtain ⟨ss, k, hss, hrun⟩ := expandElements_makesExprs hparts 0
  refine ⟨.expr note.token (.declare note symbol none) :: ss, k, fun s hs => ?_, fun st => ?_⟩
  · rcases List.mem_cons.1 hs with rfl | hs
    · exact ⟨_, _, rfl⟩
    · exact hss s hs
  · show (_ :: (expandElements c.types _ 0 elems st).1, _) = _
    rw [hrun]

/-- What the assignments to the parts of a place have in common, if a value that fits a place has
elements that fit the elements of the place. -/
lemma forall_mem_expandElement {P : Stmt → Prop} {R : Expr → Expr → Prop}
    (helem : ∀ array note es, R array (.collection note es) →
      ∀ e ∈ es, ∀ position, R (element t array position) e)
    (hassign : ∀ slot e st, R slot e → (∀ note es, e ≠ .collection note es) →
      P (assignElement slot (expr e st).1)) (h : R slot e) (st : State) :
    ∀ n ∈ (expandElement t slot e st).1, P n := by
  induction e using Expr.induction generalizing slot st with
  | collection note es ih =>
    have hes := helem slot note es h
    show ∀ n ∈ (expandElements t slot 0 es st).1, P n
    generalize 0 = position
    clear h
    induction es generalizing position st with
    | nil => exact nofun
    | cons _ _ ihrest =>
      rw [List.forall_mem_cons] at ih hes
      exact List.forall_mem_append.2 ⟨ih.1 (hes.1 position) st, ihrest ih.2 _ hes.2 _⟩
  | _ => exact List.forall_mem_singleton.2 (hassign slot _ st h nofun)

/-! ## Statements -/

/-- What holds of what a pass makes of each statement holds of all that it makes of a list. -/
lemma forall_mem_stmts {P : Stmt → Prop} (h : ∀ s ∈ ss, ∀ st, P (stmt c s st).1) (st : State) :
    ∀ s ∈ (stmts c ss st).1, P s := by
  induction ss generalizing st with
  | nil => exact nofun
  | cons _ _ ih =>
    rw [List.forall_mem_cons] at h
    exact List.forall_mem_cons.2 ⟨h.1 st, ih h.2 _⟩

lemma forall_mem_optionExpr {P : Expr → Prop} (h : ∀ e ∈ value, ∀ st, P (expr e st).1) (st : State) :
    ∀ e ∈ (optionExpr value st).1, P e := by
  cases value with
  | none => exact nofun
  | some e => exact fun e' he' => Option.some.inj he' ▸ h e rfl st

/-- What a pass keeps of the switch around it. -/
def PendingSwitch.frame (pending : PendingSwitch) : Nat × String × String :=
  (pending.id, pending.labels.head, pending.labels.tail)

/-- The labels of a switch that have been made so far. -/
def PendingSwitch.made (pending : PendingSwitch) : List String :=
  pending.labels.cases.map (·.1) ++ pending.labels.default.toList

/-- A statement that a pass replaces if it knows enough about the place where it stands. -/
def Waits : Stmt → Prop
  | .breakLoop _ | .continueLoop _ | .caseLabel .. | .defaultLabel _ => True
  | _ => False

/-- What a pass makes of such a statement: it stays, or it becomes a jump or a label that the switch
around it records. -/
inductive Settles (st : State) (s : Stmt) : Stmt × State → Prop
  | stays : Settles st s (s, st)
  | jump (token : Token) (label : String) :
    Settles st s (.goto token label, { st with changes := st.changes + 1 })
  | mark (token : Token) {name : String} {pending pending' : PendingSwitch}
    (hswitch : st.switch = some pending) (hframe : pending'.frame = pending.frame)
    (hmade : ∀ l ∈ pending'.made, l ∈ pending.made ∨ l = name) :
    Settles st s (.label token name,
      { st with switch := some pending', changes := st.changes + 1 })

lemma stmt_settles (c : Context) (st : State) (h : Waits s) : Settles st s (stmt c s st) := by
  cases s with
  | breakLoop =>
    cases hto : c.breakTo with
    | none => exact stmt_breakLoop_none c st hto ▸ .stays
    | some => exact stmt_breakLoop_some c st hto ▸ .jump _ _
  | continueLoop =>
    cases hto : c.continueTo with
    | none => exact stmt_continueLoop_none c st hto ▸ .stays
    | some => exact stmt_continueLoop_some c st hto ▸ .jump _ _
  | caseLabel tok value =>
    cases hs : st.switch with
    | none => exact stmt_caseLabel_none c st (.inl hs) ▸ .stays
    | some =>
      cases hv : value.integer? with
      | none => exact stmt_caseLabel_none c st (.inr hv) ▸ .stays
      | some =>
        rw [stmt_caseLabel_some c st hs hv]
        refine .mark tok hs rfl fun l hl => ?_
        simp [PendingSwitch.made] at hl ⊢
        tauto
  | defaultLabel tok =>
    cases hs : st.switch with
    | none => exact stmt_defaultLabel_none c st hs ▸ .stays
    | some =>
      rw [stmt_defaultLabel_some c st hs]
      refine .mark tok hs rfl fun l hl => ?_
      simp [PendingSwitch.made] at hl ⊢
      tauto
  | _ => exact h.elim

/-- How a pass changes its state. -/
structure Advances (st st' : State) : Prop where
  nextLabel_le : st.nextLabel ≤ st'.nextLabel
  changes_le : st.changes ≤ st'.changes
  frame_eq : st'.switch.map (·.frame) = st.switch.map (·.frame)

namespace Advances

variable {st st' st'' : State}

lemma refl (st : State) : Advances st st := ⟨le_refl _, le_refl _, rfl⟩

lemma trans (h : Advances st st') (h' : Advances st' st'') : Advances st st'' :=
  ⟨le_trans h.nextLabel_le h'.nextLabel_le, le_trans h.changes_le h'.changes_le,
    h'.frame_eq.trans h.frame_eq⟩

lemma isSome_eq (h : Advances st st') : st'.switch.isSome = st.switch.isSome := by
  simpa using congrArg Option.isSome h.frame_eq

end Advances

/-- A computation that advances its state.  If it counts no change, it leaves the state as it is and
the result is as described. -/
structure Steady (m : Lower α) (unchanged : α → Prop) : Prop where
  advances : ∀ st, Advances st (m st).2
  unchanged : ∀ st, (m st).2.changes = st.changes → unchanged (m st).1 ∧ (m st).2 = st

/-- A computation that advances its state and counts a change. -/
def Counted (m : Lower α) : Prop := ∀ st, Advances st (m st).2 ∧ st.changes < (m st).2.changes

section Steady

variable {m : Lower α} {f : α → Lower β}

lemma Steady.pure (h : P a) : Steady (Pure.pure a) P := ⟨.refl, fun _ _ => ⟨h, rfl⟩⟩

lemma Steady.bind (h : Steady m P) (hf : ∀ a, Steady (f a) fun b => P a → Q b) :
    Steady (m >>= f) Q := by
  refine ⟨fun st => (h.advances st).trans ((hf _).advances _), fun st hc => ?_⟩
  have hle := (h.advances st).changes_le
  have hle' := ((hf (m st).1).advances (m st).2).changes_le
  obtain ⟨hP, hst⟩ := h.unchanged st (le_antisymm (hle'.trans hc.le) hle)
  obtain ⟨hQ, hst'⟩ := (hf (m st).1).unchanged (m st).2 (hc.trans (congrArg _ hst.symm))
  exact ⟨hQ hP, hst'.trans hst⟩

lemma Faithful.steady (h : Faithful m P idle) : Steady m P := by
  obtain ⟨a, k, hP, -, hrun⟩ := h
  refine ⟨fun st => ?_, fun st hc => ?_⟩
  · rw [hrun]
    exact ⟨le_refl _, le_add_right _ _, rfl⟩
  · rw [hrun] at hc ⊢
    obtain rfl : k = 0 := Nat.add_eq_left.1 hc
    exact ⟨hP rfl, rfl⟩

lemma Counted.steady (h : Counted m) : Steady m P :=
  ⟨fun st => (h st).1, fun st hc => absurd hc (h st).2.ne'⟩

lemma Counted.after (hm : ∀ st, Advances st (m st).2) (hf : ∀ a, Counted (f a)) :
    Counted (m >>= f) := fun st =>
  ⟨(hm st).trans (hf _ _).1, (hm st).changes_le.trans_lt (hf _ _).2⟩

lemma replaceBy_counted : Counted (replaceBy s) := fun _ =>
  ⟨⟨le_refl _, le_succ _, rfl⟩, lt_succ_self _⟩

lemma newLabel_advances (st : State) : Advances st (newLabel st).2 :=
  ⟨le_succ _, le_refl _, rfl⟩

end Steady

lemma Settles.advances (h : Settles st s r) : Advances st r.2 := by
  cases h with
  | stays => exact .refl st
  | jump => exact (replaceBy_counted st).1
  | mark _ hsw hframe =>
    exact ⟨le_refl _, le_succ _, by rw [hsw]; exact congrArg some hframe⟩

lemma Settles.unchanged (h : Settles st s r) (hc : r.2.changes = st.changes) :
    r.1 = s ∧ r.2 = st := by
  cases h with
  | stays => exact ⟨rfl, rfl⟩
  | jump | mark => exact absurd hc (succ_ne_self _)

lemma stmts_steady (h : ∀ s ∈ ss, Steady (stmt c s) (· = s)) : Steady (stmts c ss) (· = ss) := by
  induction ss with
  | nil => exact .pure rfl
  | cons s _ ih =>
    rw [List.forall_mem_cons] at h
    exact h.1.bind fun _ => (ih h.2).bind fun _ => .pure (by rintro rfl rfl; rfl)

lemma MakesExprs.advances (h : MakesExprs m) (st : State) : Advances st (m st).2 := by
  obtain ⟨ss, k, -, hrun⟩ := h
  rw [hrun]
  exact ⟨le_refl _, le_add_right _ _, rfl⟩

/-- A pass over a statement takes label numbers, counts changes and keeps the switch around it.  If it
counts no change, it has changed nothing. -/
lemma stmt_steady (c : Context) : Steady (stmt c s) (· = s) := by
  have hexpr (e : Expr) := (expr_faithful e).steady
  have hopt (e : Option Expr) := (optionExpr_faithful e).steady
  induction s using Stmt.induction generalizing c with
  | expr _ e =>
    unfold stmt
    split
    · exact Counted.steady (.after (expandDeclaration_makesExprs c _ _ _).advances fun _ =>
        replaceBy_counted)
    · exact (hexpr e).bind fun _ => .pure (by rintro rfl; rfl)
  | block _ _ _ ih | seq _ _ ih =>
    exact (stmts_steady fun s hs => ih s hs c).bind fun _ => .pure (by rintro rfl; rfl)
  | branch _ cond _ no ihYes ihNo =>
    cases no with
    | none => exact (hexpr cond).bind fun _ => (ihYes c).bind fun _ => .pure (by rintro rfl rfl; rfl)
    | some no =>
      exact (hexpr cond).bind fun _ => (ihYes c).bind fun _ => (ihNo no rfl c).bind fun _ =>
        .pure (by rintro rfl rfl rfl; rfl)
  | whileLoop _ cond _ ih | doLoop _ _ cond ih =>
    exact Counted.steady (.after newLabel_advances fun _ => .after (hexpr cond).advances fun _ =>
      .after (ih _).advances fun _ => replaceBy_counted)
  | forLoop _ first cond step _ ihFirst ih =>
    have hrest (next : String) (make : Option Expr → Option Expr → Stmt → Stmt) : Counted (do
          let cond ← optionExpr cond
          let step ← optionExpr step
          replaceBy (make cond step (← stmt (c.loopBody next) _))) :=
      .after (hopt cond).advances fun _ => .after (hopt step).advances fun _ =>
        .after (ih _).advances fun _ => replaceBy_counted
    cases first with
    | none => exact Counted.steady (.after newLabel_advances fun _ => hrest _ _)
    | some first =>
      exact Counted.steady (.after newLabel_advances fun _ => .after (ihFirst first rfl c).advances
        fun _ => hrest _ _)
  | breakLoop | continueLoop | caseLabel | defaultLabel =>
    exact ⟨fun st => Settles.advances (stmt_settles c st trivial),
      fun st => Settles.unchanged (stmt_settles c st trivial)⟩
  | ret _ value => exact (hopt value).bind fun _ => .pure (by rintro rfl; rfl)
  | gotoAddress _ target => exact (hexpr target).bind fun _ => .pure (by rintro rfl; rfl)
  | switch _ value _ labels ih =>
    cases labels with
    | some => exact (hexpr value).bind fun _ => (ih _).bind fun _ => .pure (by rintro rfl rfl; rfl)
    | none =>
      refine Counted.steady (.after (hexpr value).advances fun _ st => ?_)
      -- The switch around this one is put back at its end.
      have hbody := (ih (c.switchBody (madeLabel st.nextLabel "tail"))).advances st.openSwitch
      exact ⟨⟨(le_succ _).trans hbody.nextLabel_le, le_succ_of_le hbody.changes_le, rfl⟩,
        lt_succ_of_le hbody.changes_le⟩
  | assertion _ cond =>
    exact Counted.steady (.after (hexpr cond).advances fun _ => replaceBy_counted)
  | cleanup _ _ ih => exact (ih c).bind fun _ => .pure (by rintro rfl; rfl)
  | goto | label | asm | empty => exact .pure rfl

lemma stmt_advances (s : Stmt) (c : Context) (st : State) : Advances st (stmt c s st).2 :=
  (stmt_steady c).advances st

end ControlFlow

end CompilerCore
