import CompilerCore.Proofs.Code.Jumps
import CompilerCore.Proofs.Code.Typed

/-!
# Accepted programs whose code can be made

Analysis accepts some programs for which no code can be made: it finds a name whether or not its
declaration comes first, it lets calls without a result stand where a value is needed, and it does not
know the labels that the compiler makes.  Nothing else goes wrong.  All labels of a lowered body are
defined once, all jumps lead to one of them, and no node is left that there is no code for.
-/

namespace CompilerCore

open Code Build ControlFlow

/-! ## Expressions -/

variable {t : TypeTable} {scopes : ScopeTree}

lemma ScopeTree.Calls.isSome_result? (h : scopes.Calls t x) :
    (Env.result? { scopes, types := t } x).isSome := by
  obtain ⟨type, htype, hfun⟩ := h
  rw [TypeTable.isFunction] at hfun
  split at hfun
  · next hshape => simp [Env.result?, htype, hshape]
  · cases hfun

/-- A resolved node that lacks no member and need not be lowered lacks values at most. -/
lemma Expr.Complete.lacks {e : Expr} (h : e.Complete (.lowered t scopes))
    (hupdate : e.isUpdate = false) (hflaw : e.Flaw { scopes, types := t } error) :
    (∃ part ∈ e.needs { scopes, types := t }, part.hasValue { scopes, types := t } = false) ∧
      error = .voidValue := by
  have hne := h.resolved.flaw_ne_untyped hflaw
  obtain ⟨-, rfl⟩ | hvalue | hform := hflaw
  · exact absurd rfl hne
  · exact hvalue
  exfalso
  obtain ⟨-, ⟨-, hresolved⟩, -, howned⟩ := h
  cases e with
  | name _ _ symbol =>
    obtain ⟨x, hx, -⟩ := hresolved
    cases symbol with
    | none => cases hx
    | some => exact hform
  | member _ object text deref =>
    have hmember : (object.owner? t deref >>= (t.member? · text)).isSome := howned
    rw [hform.1] at hmember
    cases hmember
  | call _ _ symbol =>
    cases symbol with
    | none => exact hform.1.1 (List.mem_singleton.1 hresolved)
    | some =>
      have hres := ScopeTree.Calls.isSome_result? hresolved
      obtain ⟨-, rfl⟩ | ⟨hnone, -⟩ := hform
      · exact hne rfl
      · rw [hnone] at hres
        cases hres
  | collection | declare => exact hne hform.2
  | update => cases hupdate
  | qualified | sizeOf => exact hresolved
  | _ => exact hform

/-! ## Lowered items -/

namespace Stmt

/-- Distinct labels are none that code generation makes, unless a program names some of those. -/
lemma Distinct.separate {body : Stmt} (h : body.Distinct given)
    (hgiven : ∀ label ∈ given, ¬ IsReserved label) :
    body.labels.Nodup ∧ leaveLabel ∉ body.labels ∧ ∀ n, numberedLabel n ∉ body.labels := by
  refine ⟨h.nodup, fun hmem => ?_, fun n hmem => ?_⟩
  · exact h.labels.toList_ne hgiven hmem (by decide) (by decide) _ rfl
  · exact h.labels.toList_ne hgiven hmem (by decide) (by decide) _ (toList_numberedLabel n)

lemma labels_eq_declaredLabels (s : Stmt) (h : s.All IsUnlabelled) :
    s.labels = s.declaredLabels := by
  induction s using parts_induction with
  | step s ih =>
    have hparts := List.flatMap_congr fun part hpart => ih part hpart ((all_iff.1 h).2 part hpart)
    by_cases hlabel : ∃ tok name, s = label tok name
    · obtain ⟨tok, name, rfl⟩ := hlabel
      rfl
    rw [declaredLabels_eq_flatMap fun tok name h => hlabel ⟨tok, name, h⟩, ← hparts]
    refine labels_eq_flatMap (fun tok name h => hlabel ⟨tok, name, h⟩) ?_
    rintro tok value body own rfl
    cases (all_iff.1 h).1

end Stmt

namespace Item

lemma Shaped.lower_finished {i : Item} (h : i.Shaped) (hlimit : 2 ≤ limit) :
    (i.lower t scopes limit).2.statement.Finished := by
  cases i with
  | function =>
    exact (Simplify.repeatPass_trims limit
      (repeatPass_finished hlimit h.closes h.cleanups)).1
  | global => exact repeatPass_finished hlimit h.closes h.cleanups

/-- Whatever number of passes it takes to finish a function, its labels are distinct. -/
lemma Shaped.lower_distinct (h : (Item.function f).Shaped)
    (hfinished : (repeatPass (pass t scopes) limit (f.body, f.nextLabel)).2.1.Finished)
    (hgiven : ∀ label ∈ f.body.declaredLabels, ¬ IsReserved label) :
    ((Item.function f).lower t scopes limit).2.statement.Distinct f.body.declaredLabels := by
  have hlabs : f.body.labels = f.body.declaredLabels :=
    Stmt.labels_eq_declaredLabels f.body h.unlabelled
  have hdist : ControlFlow.HasDistinctLabels (f.body, f.nextLabel) := by
    refine ⟨hlabs ▸ h.nodup, fun id suffix hmade => ?_, h.single⟩
    refine absurd ?_ (hgiven _ (hlabs ▸ hmade))
    rw [IsReserved, toList_madeLabel]
    rfl
  have hmade : (repeatPass (pass t scopes) limit (f.body, f.nextLabel)).2.1.Distinct
      f.body.labels :=
    repeatPass_distinct limit hdist
  obtain ⟨-, hsub⟩ := Simplify.repeatPass_trims (t := t) limit hfinished
  exact ⟨hsub.nodup hmade.nodup, fun label hlabel => hlabs ▸ hmade.labels label (hsub.subset hlabel)⟩

lemma lower_straight (h : g.statement.All Stmt.IsStraight) :
    ((Item.global g).lower t scopes limit).2.statement.All Stmt.IsStraight :=
  repeatPass_keeps (I := fun body : Stmt × Nat => body.1.All Stmt.IsStraight)
    (fun body hbody => stmt_straight body.1 hbody _ _) limit h

end Item

/-! ## Programs -/

namespace Program

/-- No label of a program is one that the compiler might make. -/
def LeavesLabels (p : Program) : Prop :=
  ∀ i ∈ p.items, ∀ label ∈ i.statement.declaredLabels, ¬ IsReserved label

/-- Whatever a value is needed of has one. -/
def GivesValues (p : Program) (types : TypeTable) : Prop :=
  ∀ i ∈ p.items,
    (∀ s ∈ i.statement.nodes, ∀ e ∈ s.needs, e.hasValue { scopes := p.scopes, types } = true) ∧
    ∀ e ∈ i.statement.exprNodes, ∀ part ∈ e.needs { scopes := p.scopes, types },
      part.hasValue { scopes := p.scopes, types } = true

/-- Variables are declared before they are named, in the order in which code is made. -/
def DeclaresFirst (p : Program) : Prop :=
  (∀ f ∈ p.functions,
    Expr.InOrder p.scopes (f.parameters ++ p.globals.map (·.symbol)) f.emitted) ∧
  Expr.InOrder p.scopes (p.globals.map (·.symbol)) (p.globals.flatMap (·.statement.emitted))

instance (p : Program) : Decidable p.LeavesLabels := by
  unfold LeavesLabels
  infer_instance

instance (p : Program) (types : TypeTable) : Decidable (p.GivesValues types) := by
  unfold GivesValues
  infer_instance

instance (p : Program) : Decidable p.DeclaresFirst := by
  unfold DeclaresFirst
  infer_instance

/-- The errors of code generation that analysis overlooks, with what is wrong then. -/
def Overlooks (given lowered : Program) (types : TypeTable) : CompileError → Prop
  | .duplicateLabel .. => ¬ given.LeavesLabels
  | .voidValue => ¬ lowered.GivesValues types
  | .unresolved _ => ¬ lowered.DeclaresFirst
  | .unlowered _ | .undefinedLabel .. | .untyped | .unknownMember _ => False

section

variable {given lowered : Program} {i : Item} {c : Env}

/-- What analysis and lowering make sure of in an item. -/
structure Prepared (c : Env) (i : Item) : Prop where
  finished : i.statement.Finished
  complete : i.Complete (.lowered c.types c.scopes)

lemma Prepared.clears (h : Prepared c i) (hc : c = { scopes := lowered.scopes, types := t })
    (hi : i ∈ lowered.items) : i.statement.All (Stmt.Holds
      (fun e => ∀ error, e.Flaw c error → given.Overlooks lowered t error) fun _ => True) := by
  subst hc
  refine Stmt.all_holds_iff.2 fun e he error hflaw => ?_
  have hupdate := Stmt.All.exprNodes (Stmt.DoneIn.noUpdates h.finished.closes) e he
  obtain ⟨⟨part, hpart, hnone⟩, rfl⟩ :=
    (Stmt.All.exprNodes h.complete e he).lacks hupdate hflaw
  intro hvalues
  rw [(hvalues i hi).2 e he part hpart] at hnone
  cases hnone

section

variable (hc : c = { scopes := lowered.scopes, types := t })
include hc

lemma flaws_of_isPlain (hi : i ∈ lowered.items) : i.statement.All fun s => s.IsPlain →
      ∀ error, s.Flaw c error → given.Overlooks lowered t error := by
  subst hc
  intro s hs hplain error hflaw
  obtain ⟨⟨e, he, hnone⟩, rfl⟩ := hplain.lacks hflaw
  intro hvalues
  rw [(hvalues i hi).1 s hs e he] at hnone
  cases hnone

lemma function_fits (hf : f ∈ lowered.functions) (h : Prepared c (.function f))
    (hparams : ∀ x ∈ f.parameters, lowered.scopes.Knows x)
    (hdist : given.LeavesLabels → f.body.labels.Nodup ∧ leaveLabel ∉ f.body.labels ∧
      ∀ n, numberedLabel n ∉ f.body.labels) :
    Gen.Fits (given.Overlooks lowered t) (Gen.staticNames c lowered.globals) f.name
      (Gen.function c f) := by
  have hi := mem_functions.1 hf
  have huntyped (x : SymbolId) (hx : x ∈ f.parameters) (hnone : (c.scopes.symbol x).type = none) :
      given.Overlooks lowered t .untyped := by
    subst hc
    have hknows := hparams x hx
    rw [ScopeTree.Knows, hnone] at hknows
    cases hknows
  have horder : Expr.InOrder c.scopes (f.parameters.reverse ++ lowered.globals.map (·.symbol)) f.emitted ∨
      ∀ name, given.Overlooks lowered t (.unresolved name) := by
    by_cases hfirst : lowered.DeclaresFirst
    · subst hc
      exact .inl ((hfirst.1 f hf).mono fun x hx => by simpa using hx)
    · exact .inr fun _ => hfirst
  have hlabs : (∀ method label, given.Overlooks lowered t (.duplicateLabel method label)) ∨
      f.body.labels.Nodup ∧ leaveLabel ∉ f.body.labels ∧ ∀ n, numberedLabel n ∉ f.body.labels := by
    by_cases hleaves : given.LeavesLabels
    · exact .inr (hdist hleaves)
    · exact .inl fun _ _ => hleaves
  exact Gen.finished_fits h.finished hlabs (flaws_of_isPlain hc hi) huntyped
    (Env.clearsAll_of_inOrder horder (Function.all_emitted (h.clears hc hi)) False.elim)
    fun x => Gen.isSome_lookup_staticNames

lemma initializer_fits
    (h : ∀ g ∈ lowered.globals, Prepared c (.global g) ∧ g.statement.All Stmt.IsStraight) :
    Gen.Fits (given.Overlooks lowered t) (Gen.staticNames c lowered.globals) staticInitializer (do
      Gen.globals c lowered.globals
      Gen.leave c none) := by
  have horder : Expr.InOrder c.scopes (lowered.globals.map (·.symbol))
        (lowered.globals.flatMap (·.statement.emitted)) ∨
      ∀ name, given.Overlooks lowered t (.unresolved name) := by
    by_cases hfirst : lowered.DeclaresFirst
    · subst hc
      exact .inl hfirst.2
    · exact .inr fun _ => hfirst
  have hclears (g : Global) (hg : g ∈ lowered.globals) : ∀ e ∈ g.statement.emitted,
      e.All fun e => ∀ error, e.Flaw c error → given.Overlooks lowered t error :=
    Stmt.all_emitted ((h g hg).1.clears hc (mem_globals.1 hg))
  exact Gen.straight_fits (fun g hg => (h g hg).2)
    (Env.clearsAll_of_inOrder horder (List.forall_mem_flatMap.2 hclears) False.elim)
    fun x => Gen.isSome_lookup_staticNames

end

end

/-- The labels of a lowered function are none that code generation makes. -/
lemma separate_of_lower {p : Program} (hshaped : ∀ i ∈ p.items, i.Shaped)
    (hpasses : 2 ≤ config.maxLoweringPasses) (hleaves : p.LeavesLabels)
    (hf : f ∈ (p.lower t config).2.functions) :
    f.body.labels.Nodup ∧ leaveLabel ∉ f.body.labels ∧ ∀ n, numberedLabel n ∉ f.body.labels := by
  obtain ⟨i, hi, hlower⟩ := mem_lower.1 (mem_functions.1 hf)
  cases i with
  | global => cases hlower
  | function given =>
    have hdist : (Item.lower t p.scopes config.maxLoweringPasses
        (.function given)).2.statement.Distinct given.body.declaredLabels :=
      (hshaped _ hi).lower_distinct (repeatPass_finished hpasses (hshaped _ hi).closes
        (hshaped _ hi).cleanups) (hleaves _ hi)
    rw [hlower] at hdist
    exact hdist.separate (hleaves _ hi)

lemma straight_of_lower {p : Program} (hform : ∀ i ∈ p.items, i.Formed before)
    (hg : g ∈ (p.lower t config).2.globals) : g.statement.All Stmt.IsStraight := by
  obtain ⟨i, hi, hlower⟩ := mem_lower.1 (mem_globals.1 hg)
  cases i with
  | function => cases hlower
  | global given =>
    have hdeclares : given.statement.declared? = some given.symbol := hform _ hi
    have hstraight : given.statement.All Stmt.IsStraight := by
      unfold Stmt.declared? at hdeclares
      split at hdeclares
      · next hstmt =>
        rw [hstmt]
        exact Stmt.all_expr.2 trivial
      · cases hdeclares
    have hlowered : (Item.lower t p.scopes config.maxLoweringPasses
        (.global given)).2.statement.All Stmt.IsStraight :=
      Item.lower_straight hstraight
    rwa [hlower] at hlowered

/-- The code of an accepted and lowered program fails for no other reasons. -/
lemma IsBuilt.overlooks {p : Program} {types : TypeTable} (hbuilt : p.IsBuilt types)
    (hform : ∀ i ∈ p.items, i.Formed p.scopes) (hanalyze : p.analyze config types diags = accepted)
    (hok : accepted.result = .ok n) (hpasses : 2 ≤ lowering.maxLoweringPasses)
    (hlower : (accepted.program.lower accepted.types lowering).2 = lowered)
    (herror : lowered.compile accepted.types name = .error error) :
    accepted.program.Overlooks lowered accepted.types error := by
  obtain ⟨hsound, hknows, hwt⟩ := hbuilt.wellTyped hanalyze hok
  have hshaped := hbuilt.shaped hform hanalyze hok
  subst hlower
  have hprepared (i : Item) (hi : i ∈ (accepted.program.lower accepted.types lowering).2.items) :
      Prepared { scopes := accepted.program.scopes, types := accepted.types } i := by
    obtain ⟨given, hgiven, rfl⟩ := mem_lower.1 hi
    exact ⟨(hshaped given hgiven).2.lower_finished hpasses, (hwt given hgiven).lower hsound _⟩
  have hformed' (i : Item) (hi : i ∈ accepted.program.items) : i.Formed p.scopes := (hshaped i hi).1
  refine compile_fails rfl (fun g hg hnone => ?_) (fun f hf => ?_) ?_ herror
  · exact absurd hnone (knows_global_of_lower hwt hformed' hg).type_ne_none
  · refine function_fits rfl hf (hprepared _ (mem_functions.1 hf))
      (knows_parameter_of_lower (p := accepted.program) hknows hformed' hf) fun hleaves => ?_
    exact separate_of_lower (fun i hi => (hshaped i hi).2) hpasses hleaves hf
  · refine initializer_fits rfl fun g hg => ⟨hprepared _ (mem_globals.1 hg), ?_⟩
    exact straight_of_lower hformed' hg

/-- Analysis accepts no program whose code fails for another reason than a label of the compiler's, a
missing value or a name that comes before its declaration. -/
theorem compiles_unless_overlooked {p : Program} {types : TypeTable} (hbuilt : p.IsBuilt types)
    (hformed : ∀ i ∈ p.items, i.Formed p.scopes) {config : Config} {diagnostics : Diagnostics}
    {accepted : Analysis.Outcome} (hanalyze : p.analyze config types diagnostics = accepted)
    {n : Nat} (hok : accepted.result = .ok n) {lowering : Config}
    (hpasses : 2 ≤ lowering.maxLoweringPasses) {lowered : Program}
    (hlower : (accepted.program.lower accepted.types lowering).2 = lowered) (name : String) :
    (accepted.program.LeavesLabels → lowered.GivesValues accepted.types → lowered.DeclaresFirst →
      ∃ m, lowered.compile accepted.types name = .ok m) ∧
    ∀ error, lowered.compile accepted.types name = .error error →
      accepted.program.Overlooks lowered accepted.types error := by
  have hfails (error : CompileError) (herror : lowered.compile accepted.types name = .error error) :=
    hbuilt.overlooks hformed hanalyze hok hpasses hlower herror
  refine ⟨fun hlabels hvalues hfirst => ?_, hfails⟩
  cases hrun : lowered.compile accepted.types name with
  | ok m => exact ⟨m, rfl⟩
  | error error =>
    have hoverlooks := hfails error hrun
    cases error with
    | duplicateLabel => exact absurd hlabels hoverlooks
    | voidValue => exact absurd hvalues hoverlooks
    | unresolved => exact absurd hfirst hoverlooks
    | unlowered | undefinedLabel | untyped | unknownMember => exact hoverlooks.elim

end Program

/-- Variables `limit = 3` and `first = limit` and a function `i32 climb(i32 n)` with the body
`i32 total = 0; cleanup limit = total; again: while (n > 0) { switch (n) { case 1: total += first;
break; default: total += n; } n -= 1; } if (total < limit) { total += 1; goto again; } return total;` -/
def climb : Program × Session :=
  (Session.start {}).build "climb" do
    let _ ← global "limit" none (some (← Demo.int 3))
    let _ ← global "first" none (some (← Demo.ident "limit"))
    let update (op : ArithOp) (name : String) (amount : Expr) : Build Stmt := do
      let target ← Demo.ident name
      Demo.perform (← expr (.update · (.arith op) target amount))
    function "climb" TypeId.i32 [{ name := "n", type := TypeId.i32 }] do
      let total ← localVar "total" (some TypeId.i32) (some (← Demo.int 0))
      let store ← Demo.perform (← Demo.assign (← Demo.ident "limit") (← Demo.ident "total"))
      let cleanup ← stmt (.cleanup · store)
      let again ← stmt (.label · "again")
      let isPositive ← Demo.binary (.compare .gt) (← Demo.ident "n") (← Demo.int 0)
      let body ← block do
        let cases ← block do
          let one ← Demo.int 1
          return [← stmt (.caseLabel · one), ← update .add "total" (← Demo.ident "first"),
            ← stmt .breakLoop, ← stmt .defaultLabel,
            ← update .add "total" (← Demo.ident "n")]
        let n ← Demo.ident "n"
        return [← stmt (.switch · n cases none), ← update .sub "n" (← Demo.int 1)]
      let loop ← stmt (.whileLoop · isPositive body)
      let isLow ← Demo.binary (.compare .lt) (← Demo.ident "total") (← Demo.ident "limit")
      let retry ← block do
        return [← update .add "total" (← Demo.int 1), ← stmt (.goto · "again")]
      let test ← stmt (.branch · isLow retry none)
      return [total, cleanup, again, loop, test, ← Demo.giveBack (← Demo.ident "total")]

def acceptedClimb : Analysis.Outcome := climb.1.analyze {} climb.2.types []

def loweredClimb : Program := (acceptedClimb.program.lower acceptedClimb.types {}).2

/-- Nothing is overlooked in a function with jumps, cleanup statements and variables. -/
theorem Program.compiles_unless_overlooked_climb :
    acceptedClimb.result = .ok 1 ∧ acceptedClimb.program.LeavesLabels ∧
    loweredClimb.GivesValues acceptedClimb.types ∧ loweredClimb.DeclaresFirst ∧
    ∃ m, loweredClimb.compile acceptedClimb.types "climb" = .ok m := by
  have hbuilt : climb.1.IsBuilt climb.2.types := by decide +kernel
  have hformed : ∀ i ∈ climb.1.items, i.Formed climb.1.scopes := by decide +kernel
  have hok : acceptedClimb.result = .ok 1 := by decide +kernel
  have hlabels : acceptedClimb.program.LeavesLabels := by decide +kernel
  have hvalues : loweredClimb.GivesValues acceptedClimb.types := by decide +kernel
  have hfirst : loweredClimb.DeclaresFirst := by decide +kernel
  have hpasses : 2 ≤ ({} : Config).maxLoweringPasses := by decide
  exact ⟨hok, hlabels, hvalues, hfirst, (compiles_unless_overlooked hbuilt hformed rfl hok
    hpasses rfl "climb").1 hlabels hvalues hfirst⟩

/-- A function with the body `x = 1; i32 x = 0; return x;` -/
def early : Program × Session :=
  (Session.start {}).build "early" do
    function "f" TypeId.i32 [] do
      let use ← Demo.perform (← Demo.assign (← Demo.ident "x") (← Demo.int 1))
      let x ← localVar "x" (some TypeId.i32) (some (← Demo.int 0))
      return [use, x, ← Demo.giveBack (← Demo.ident "x")]

def acceptedEarly : Analysis.Outcome := early.1.analyze {} early.2.types []

def loweredEarly : Program := (acceptedEarly.program.lower acceptedEarly.types {}).2

/-- Analysis finds a variable before its declaration; code generation does not. -/
theorem Program.accepted_not_compiled :
    early.1.IsBuilt early.2.types ∧ (∀ i ∈ early.1.items, i.Formed early.1.scopes) ∧
    acceptedEarly.result = .ok 1 ∧ 3 ≤ ({} : Config).maxLoweringPasses ∧
    loweredEarly.compile acceptedEarly.types "early" = .error (.unresolved "x") := by
  decide +kernel

end CompilerCore
