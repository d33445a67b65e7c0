import CompilerCore.Demo
import CompilerCore.Proofs.Analysis.Outline
import CompilerCore.Proofs.Code.Closed
import CompilerCore.Proofs.Lowering.Simplified

/-!
# Accepted programs are typed throughout

Analysis resolves every expression of a program that it accepts, and lowering keeps it so.  No code
is therefore asked of an expression without a type.
-/

namespace CompilerCore

open Code Build Demo TypeId

lemma TypeTable.isSome_element?_of_isArray {t : TypeTable} {id : TypeId}
    (h : t.isArray id = true) : (t.element? id).isSome := by
  unfold isArray at h
  unfold element?
  split at h
  · next hshape => rw [hshape]; rfl
  · cases h

variable {t : TypeTable} {scopes : ScopeTree}

lemma Expr.Resolved.flaw_ne_untyped {e : Expr} (h : e.Resolved t scopes free)
    (hflaw : e.Flaw { scopes, types := t } error) : error ≠ .untyped := by
  obtain ⟨htype, hresolved⟩ := h
  obtain ⟨hnone, -⟩ | ⟨-, rfl⟩ | hflaw := hflaw
  · rw [hnone] at htype
    cases htype
  · exact nofun
  cases e with
  | name _ text symbol =>
    cases symbol with
    | none =>
      obtain rfl : error = .unresolved text := hflaw
      exact nofun
    | some => exact hflaw.elim
  | member =>
    obtain ⟨-, rfl⟩ := hflaw
    exact nofun
  | call _ _ symbol =>
    cases symbol with
    | none =>
      obtain ⟨-, rfl⟩ := hflaw
      exact nofun
    | some x =>
      obtain ⟨hnone, -⟩ | ⟨-, rfl⟩ := hflaw
      · obtain ⟨type, hknown, -⟩ := hresolved
        rw [show (scopes.symbol x).type = none from hnone] at hknown
        cases hknown
      · exact nofun
  | collection note =>
    obtain ⟨type, hnote, harray⟩ := hresolved
    obtain ⟨hnone, -⟩ := hflaw
    have helem := TypeTable.isSome_element?_of_isArray harray
    rw [show note.type = some type from hnote, Option.bind_eq_bind, Option.bind_some] at hnone
    rw [hnone] at helem
    cases helem
  | declare _ x =>
    have hknows : (scopes.symbol x).type.isSome := hresolved
    rw [hflaw.1] at hknows
    cases hknows
  | update =>
    obtain rfl : error = .unlowered .update := hflaw
    exact nofun
  | qualified => exact hresolved.elim
  | sizeOf => exact hresolved.elim
  | _ => exact hflaw.elim

/-! ## Methods without untyped expressions -/

namespace Code

variable {c : Env}

/-- Code that may end with any error but one says nothing of labels. -/
def ignoring (c : Env) : Directing c (· ≠ .untyped) where
  spared := none
  strict := False
  own _ _ := True
  targets _ := True
  quiet _ _ := trivial
  newLabel _ := trivial
  branch _ _ _ _ _ := trivial
  duplicate _ _ _ := nofun
  define _ _ := trivial
  perm _ _ := trivial
  jump _ _ _ _ _ := trivial
  result _ _ _ := trivial
  finish _ _ _ _ := nofun

lemma Env.clearsAll_complete {es : List Expr}
    (h : ∀ e ∈ es, e.All (Expr.Complete (.lowered t scopes))) :
    Env.ClearsAll { scopes, types := t } (· ≠ .untyped) False known es :=
  clearsAll_of_inOrder (.inr fun _ => nofun)
    (fun e he => (h e he).mono fun _ hn _ => hn.resolved.flaw_ne_untyped) False.elim

lemma Env.passes_untyped {s : Stmt} : s.All (c.Passes (· ≠ .untyped) fun _ => True) :=
  fun n _ => ⟨fun _ hflaw => by obtain rfl | ⟨_, rfl⟩ := hflaw.error_eq <;> exact nofun,
    n.jumps_anywhere⟩

end Code

/-! ## Lowered items -/

namespace Program

variable {p : Program} {config : Config}

lemma parameters_of_mem_lower (h : .function f ∈ (p.lower t config).2.items) :
    ∃ given, .function given ∈ p.items ∧ f.parameters = given.parameters := by
  obtain ⟨i, hi, hlower⟩ := mem_lower.1 h
  cases i with
  | function given =>
    cases hlower
    exact ⟨given, hi, rfl⟩
  | global => cases hlower

lemma symbol_of_mem_lower (h : .global g ∈ (p.lower t config).2.items) :
    ∃ given, .global given ∈ p.items ∧ g.symbol = given.symbol := by
  obtain ⟨i, hi, hlower⟩ := mem_lower.1 h
  cases i with
  | function => cases hlower
  | global given =>
    cases hlower
    exact ⟨given, hi, rfl⟩

end Program

lemma Item.WellTyped.knows_global (h : (Item.global g).WellTyped t scopes)
    (hdeclares : g.statement.declared? = some g.symbol) : scopes.Knows g.symbol := by
  have hresolved : g.statement.Holds (Expr.WellTyped t scopes) _ := Stmt.All.self h
  unfold Stmt.declared? at hdeclares
  split at hdeclares
  · next hstmt =>
    rw [hstmt] at hresolved
    obtain rfl := Option.some.inj hdeclares
    exact (Expr.All.self hresolved).resolved.2
  · cases hdeclares

namespace Program

section

variable {p : Program} {config : Config} {before : ScopeTree}

lemma knows_global_of_lower (hwt : ∀ i ∈ p.items, i.WellTyped t p.scopes)
    (hform : ∀ i ∈ p.items, i.Formed before) (hg : g ∈ (p.lower t config).2.globals) :
    p.scopes.Knows g.symbol := by
  obtain ⟨given, hgiven, hsym⟩ := symbol_of_mem_lower (mem_globals.1 hg)
  rw [hsym]
  exact (hwt _ hgiven).knows_global (hform _ hgiven)

lemma knows_parameter_of_lower (hknows : ∀ x, before.Knows x → p.scopes.Knows x)
    (hform : ∀ i ∈ p.items, i.Formed before) (hf : f ∈ (p.lower t config).2.functions) :
    ∀ x ∈ f.parameters, p.scopes.Knows x := by
  intro x hx
  obtain ⟨given, hgiven, hsame⟩ := parameters_of_mem_lower (mem_functions.1 hf)
  obtain ⟨-, htyped⟩ := hform _ hgiven
  exact hknows x (htyped x (hsame ▸ hx))

end

/-- Analysis gives a type to every expression and a typed symbol to every name that it accepts,
lowering keeps them, apart from calls that stop the program, and code generation finds a type wherever
it needs one. -/
theorem resolved_throughout {p : Program} {types : TypeTable} (hbuilt : p.IsBuilt types)
    (hformed : ∀ i ∈ p.items, i.Formed p.scopes) {config : Config} {diagnostics : Diagnostics}
    {accepted : Analysis.Outcome} (hanalyze : p.analyze config types diagnostics = accepted)
    {n : Nat} (hok : accepted.result = .ok n) {lowered : Program} (lowering : Config)
    (hlower : (accepted.program.lower accepted.types lowering).2 = lowered) :
    (∀ i ∈ accepted.program.items, ∀ e ∈ i.statement.exprNodes,
      e.Resolved accepted.types accepted.program.scopes []) ∧
    (∀ i ∈ lowered.items, ∀ e ∈ i.statement.exprNodes,
      e.Resolved accepted.types lowered.scopes [ControlFlow.abortName]) ∧
    ∀ name, lowered.compile accepted.types name ≠ .error .untyped := by
  subst hlower
  obtain ⟨hsound, hknows, hwellTyped⟩ := hbuilt.wellTyped hanalyze hok
  have hformed' (i : Item) (hi : i ∈ accepted.program.items) : i.Formed p.scopes :=
    (hbuilt.shaped hformed hanalyze hok i hi).1
  have hlowered : ∀ i ∈ (accepted.program.lower accepted.types lowering).2.items,
      i.Complete (.lowered accepted.types accepted.program.scopes) := by
    intro i hi
    obtain ⟨given, hgiven, rfl⟩ := mem_lower.1 hi
    exact (hwellTyped given hgiven).lower hsound _
  refine ⟨fun i hi e he => (Stmt.All.exprNodes (hwellTyped i hi) e he).resolved,
    fun i hi e he => (Stmt.All.exprNodes (hlowered i hi) e he).resolved, fun name herror => ?_⟩
  let c : Env := { scopes := accepted.program.scopes, types := accepted.types }
  refine compile_fails (E := (· ≠ .untyped)) rfl (fun g hg hnone => ?_) (fun f hf => ?_) ?_ herror rfl
  · exact absurd hnone (knows_global_of_lower hwellTyped hformed' hg).type_ne_none
  · have hparameters (x : SymbolId) (hx : x ∈ f.parameters)
        (hnone : (accepted.program.scopes.symbol x).type = none) :
        CompileError.untyped ≠ .untyped :=
      absurd hnone (knows_parameter_of_lower hknows hformed' hf x hx).type_ne_none
    have hclears := Function.all_emitted (hlowered _ (mem_functions.1 hf))
    exact (Gen.function_ends (D := ignoring c) (fun _ => id) Env.passes_untyped hparameters
      (Env.clearsAll_complete hclears)).fits rfl (fun _ => trivial) (List.forall_mem_nil _)
  · have hclears (g : Global) (hg : g ∈ (accepted.program.lower accepted.types lowering).2.globals) :=
      Stmt.all_emitted (hlowered _ (mem_globals.1 hg))
    exact (Gen.initializer_ends (D := ignoring c) (fun g _ => Env.passes_untyped)
      (Env.clearsAll_complete (List.forall_mem_flatMap.2 hclears))).fits rfl
        (fun _ => trivial) (List.forall_mem_nil _)

end Program

/-- A variable `total = 3` and a function `i32 tally(i32 n)` with the body
`i32[2] values = {1, n}; u64 width = sizeof(i32); assert(n > 0); total += n; return values[1];` -/
def tally : Program × Session :=
  (Session.start {}).build "tally" do
    let _ ← global "total" none (some (← int 3))
    let pair ← types (·.arrayOf i32 2)
    function "tally" i32 [{ name := "n", type := i32 }] do
      let elements := [← int 1, ← ident "n"]
      let elements ← expr (.collection · elements)
      let values ← localVar "values" (some pair) (some elements)
      let size ← expr (.sizeOf · i32)
      let width ← localVar "width" (some u64) (some size)
      let isPositive ← binary (.compare .gt) (← ident "n") (← int 0)
      let check ← stmt (.assertion · isPositive none)
      let total ← ident "total"
      let amount ← ident "n"
      let add ← expr (.update · (.arith .add) total amount)
      let base ← ident "values"
      let one ← int 1
      let last ← expr (.index · base one)
      return [values, width, check, ← perform add, ← giveBack last]

def acceptedTally : Analysis.Outcome := tally.1.analyze {} tally.2.types []

def loweredTally : Program := (acceptedTally.program.lower acceptedTally.types {}).2

/-- A call without a symbol, such as one that stops the program. -/
def Expr.isUnresolvedCall : Expr → Bool
  | call _ _ none _ => true
  | _ => false

/-- Lowering adds a call that stops the program. -/
theorem Program.resolved_throughout_tally :
    acceptedTally.result = .ok 1 ∧
    (loweredTally.items.any fun i => i.statement.exprNodes.any (·.isUnresolvedCall)) = true ∧
    (∀ i ∈ acceptedTally.program.items, ∀ e ∈ i.statement.exprNodes,
      e.Resolved acceptedTally.types acceptedTally.program.scopes []) ∧
    (∀ i ∈ loweredTally.items, ∀ e ∈ i.statement.exprNodes,
      e.Resolved acceptedTally.types loweredTally.scopes [ControlFlow.abortName]) ∧
    ∀ name, loweredTally.compile acceptedTally.types name ≠ .error .untyped := by
  have hbuilt : tally.1.IsBuilt tally.2.types := by decide +kernel
  have hformed : ∀ i ∈ tally.1.items, i.Formed tally.1.scopes := by decide +kernel
  have hok : acceptedTally.result = .ok 1 := by decide +kernel
  have hanalyze : tally.1.analyze {} tally.2.types [] = acceptedTally := rfl
  have hlower : (acceptedTally.program.lower acceptedTally.types {}).2 = loweredTally := rfl
  exact ⟨hok, by decide +kernel, resolved_throughout hbuilt hformed hanalyze hok {} hlower⟩

/-- A function `void f(i32 n)` without statements, the type of whose parameter is taken away. -/
def bare : Program × Session :=
  (Session.start {}).build "bare" do
    let _ ← function "f" void [{ name := "n", type := i32 }] (return [])
    modifySymbol 1 fun x => { x with type := none }

def acceptedBare : Analysis.Outcome := bare.1.analyze {} bare.2.types []

/-- A program that has been lowered is accepted again with the call that stops it, and a parameter
without a type is accepted but not compiled. -/
theorem Program.unresolved_elsewhere :
    (loweredTally.analyze {} acceptedTally.types []).result = .ok 1 ∧
    ((loweredTally.analyze {} acceptedTally.types []).program.items.any fun i =>
      i.statement.exprNodes.any (·.isUnresolvedCall)) = true ∧
    acceptedBare.result = .ok 1 ∧
    ((acceptedBare.program.lower acceptedBare.types {}).2.compile acceptedBare.types "bare").map
      (fun _ => ()) = .error .untyped :=
  ⟨by decide +kernel, by decide +kernel, by decide +kernel, by decide +kernel⟩

end CompilerCore
