import CompilerCore.Proofs.Code.Completion
import CompilerCore.Proofs.Lowering.Phases

/-!
# Jumps that arrive

In a *connected* body every label is defined once and every jump leads to one of them.  Lowering makes
the bodies of accepted functions connected, unless a program names labels that it should leave to the
compiler.  No method fails because of its labels then.
-/

namespace CompilerCore

open Code

/-! ## Connected bodies -/

namespace Stmt

/-- A body that defines each of its labels once, and all labels that its statements lead to. -/
structure Connected (body : Stmt) : Prop where
  nodup : body.labels.Nodup
  arrives : body.All fun s => ∀ label ∈ s.targets, label ∈ body.labels

lemma Finished.arrives {body : Stmt} (h : body.Finished) :
    body.All fun s => ∀ label ∈ s.targets, label ∈ body.labels :=
  (h.closes.remains (fun _ hlabel => (declaredLabels_sublist body).subset hlabel) fun _ => id).mono
    fun _ => Remains.targets

end Stmt

/-! ## Errors about labels -/

/-- Whether an error is about a label that is nowhere or that is defined twice. -/
def Code.CompileError.isAboutLabel : CompileError → Bool
  | undefinedLabel .. | duplicateLabel .. => true
  | unlowered _ | untyped | unresolved _ | unknownMember _ | voidValue => false

lemma Expr.Flaw.isAboutLabel_eq_false {e : Expr} (h : e.Flaw c error) :
    error.isAboutLabel = false := by
  obtain ⟨-, rfl⟩ | ⟨-, rfl⟩ | hform := h
  · rfl
  · rfl
  cases e with
  | name _ text symbol =>
    cases symbol with
    | none =>
      obtain rfl : error = .unresolved text := hform
      rfl
    | some => exact hform.elim
  | call _ _ symbol =>
    cases symbol with
    | none =>
      obtain ⟨-, rfl⟩ := hform
      rfl
    | some => obtain ⟨-, rfl⟩ | ⟨-, rfl⟩ := hform <;> rfl
  | member | collection | declare =>
    obtain ⟨-, rfl⟩ := hform
    rfl
  | qualified | update | sizeOf =>
    obtain rfl : error = .unlowered _ := hform
    rfl
  | _ => exact hform.elim

lemma Stmt.Flaw.isAboutLabel_eq_false {s : Stmt} (h : s.Flaw c error) :
    error.isAboutLabel = false := by
  obtain rfl | ⟨_, rfl⟩ := h.error_eq <;> rfl

namespace Code.Gen

variable {c : Env} {f : Function}

/-- A method that does not fail because of its labels, whatever the variables of its module are. -/
def KeepsLabels (code : Gen Unit) : Prop :=
  ∀ statics name error, statics.Sound → method statics name code = .error error →
    error.isAboutLabel = false

lemma Fits.keepsLabels {code : Gen Unit}
    (h : ∀ symbols name, Fits (fun error => error.isAboutLabel = false) symbols name code) :
    KeepsLabels code :=
  fun statics name error hstat => h statics.symbols name statics ⟨hstat, rfl⟩ error

lemma clearsAll_labels : c.ClearsAll (fun error => error.isAboutLabel = false) False known es :=
  Env.clearsAll_of_inOrder (.inr fun _ => rfl) (fun _ _ _ _ _ hflaw => hflaw.isAboutLabel_eq_false)
    False.elim

/-- The code of a finished body whose labels are distinct and none of the compiler's. -/
lemma function_keepsLabels (h : f.body.Finished) (hlabs : f.body.labels.Nodup ∧
    leaveLabel ∉ f.body.labels ∧ ∀ n, numberedLabel n ∉ f.body.labels) :
    KeepsLabels (function c f) :=
  Fits.keepsLabels fun _ _ => finished_fits h (.inr hlabs)
    (fun _ _ _ _ hflaw => hflaw.isAboutLabel_eq_false) (fun _ _ _ => rfl) clearsAll_labels
    (List.forall_mem_nil _)

lemma initializer_keepsLabels (h : ∀ g ∈ gs, g.statement.All Stmt.IsStraight) :
    KeepsLabels (do globals c gs; leave c none) :=
  Fits.keepsLabels fun _ _ => straight_fits h clearsAll_labels (List.forall_mem_nil _)

end Code.Gen

open Code.Gen

/-! ## Programs -/

namespace Program

lemma exists_of_compile_error {p : Program}
    (hglobals : ∀ g ∈ p.globals, g.statement.All Stmt.IsStraight) {name : String}
    (h : p.compile types name = .error error) (hlabel : error.isAboutLabel = true) :
    ∃ f ∈ p.functions, ∃ statics, statics.Sound ∧
      method statics f.name (Gen.function { scopes := p.scopes, types } f) = .error error := by
  refine compile_fails (E := fun error => error.isAboutLabel = true → ∃ f ∈ p.functions,
    ∃ statics, statics.Sound ∧ method statics f.name (Gen.function { scopes := p.scopes, types } f) =
      .error error) rfl (fun _ _ _ => nofun) (fun f hf statics hstat _ herror _ => ?_)
    (fun statics hstat error herror hlabel => ?_) h hlabel
  · exact ⟨f, hf, statics, hstat.1, herror⟩
  · rw [initializer_keepsLabels hglobals statics _ error hstat.1 herror] at hlabel
    cases hlabel

end Program

namespace Function

/-- A function as the code generator gets it. -/
def lowered (types : TypeTable) (scopes : ScopeTree) (limit : Nat) (f : Function) : Function :=
  (f.flatten types scopes limit).simplify types limit

/-- Lowering finishes a function whose control flow is taken apart before the limit is reached. -/
lemma lowered_finished {types : TypeTable} {scopes : ScopeTree} {limit : Nat} {f : Function}
    (hflat : (f.flatten types scopes limit).IsFlat types scopes)
    (hshaped : (Item.function f).Shaped) : (f.lowered types scopes limit).body.Finished :=
  (Simplify.repeatPass_trims (t := types) limit
    (hflat.finished hshaped.closes hshaped.cleanups)).1

/-- A function that names no labels of the compiler's, and whose control flow has been taken apart
before the limit is reached. -/
def IsOrderly (types : TypeTable) (scopes : ScopeTree) (limit : Nat) (f : Function) : Prop :=
  (∀ label ∈ f.body.declaredLabels, ¬ IsReserved label) ∧
    (f.flatten types scopes limit).IsFlat types scopes

instance (types : TypeTable) (scopes : ScopeTree) (limit : Nat) (f : Function) :
    Decidable (f.IsOrderly types scopes limit) := by
  unfold IsOrderly
  infer_instance

variable {types : TypeTable} {scopes : ScopeTree} {limit : Nat} {f : Function}

lemma IsOrderly.connected (h : f.IsOrderly types scopes limit) (hshaped : (Item.function f).Shaped)
    (c : Env) : (f.lowered types scopes limit).body.Connected ∧
      KeepsLabels (Gen.function c (f.lowered types scopes limit)) := by
  have hfinished := lowered_finished h.2 hshaped
  have hdist : (f.lowered types scopes limit).body.Distinct f.body.declaredLabels :=
    hshaped.lower_distinct (h.2.finished hshaped.closes hshaped.cleanups) h.1
  exact ⟨⟨hdist.nodup, hfinished.arrives⟩, function_keepsLabels hfinished (hdist.separate h.1)⟩

end Function

namespace Program

lemma functions_lower {p : Program} {types : TypeTable} {config : Config} :
    (p.lower types config).2.functions =
      p.functions.map (·.lowered types p.scopes config.maxLoweringPasses) := by
  rw [lower_eq_simplify, functions_simplify, functions_flatten, List.map_map]
  rfl

/-- Every jump keeps its label: lowering makes a function connected that names no labels of the
compiler's, and no code fails because of labels but that of functions which do. -/
theorem labels_in_order {p : Program} {types : TypeTable} (hbuilt : p.IsBuilt types)
    (hformed : ∀ i ∈ p.items, i.Formed p.scopes) {config : Config} {diagnostics : Diagnostics}
    {accepted : Analysis.Outcome} (hanalyze : p.analyze config types diagnostics = accepted)
    {n : Nat} (hok : accepted.result = .ok n) {lowering : Config} {lowered : Program}
    (hlower : (accepted.program.lower accepted.types lowering).2 = lowered) {limit : Nat}
    (hlimit : lowering.maxLoweringPasses = limit) :
    (∀ f ∈ accepted.program.functions, f.IsOrderly accepted.types lowered.scopes limit →
      f.lowered accepted.types lowered.scopes limit ∈ lowered.functions ∧
      (f.lowered accepted.types lowered.scopes limit).body.Connected ∧
      KeepsLabels (Gen.function { scopes := lowered.scopes, types := accepted.types }
        (f.lowered accepted.types lowered.scopes limit))) ∧
    ∀ name error, lowered.compile accepted.types name = .error error → error.isAboutLabel = true →
      ∃ f ∈ accepted.program.functions, ¬ f.IsOrderly accepted.types lowered.scopes limit ∧
        ∃ statics, statics.Sound ∧ method statics f.name (Gen.function
          { scopes := lowered.scopes, types := accepted.types }
          (f.lowered accepted.types lowered.scopes limit)) = .error error := by
  subst hlimit
  have hshaped := hbuilt.shaped hformed hanalyze hok
  have hfunctions : lowered.functions = accepted.program.functions.map
      (·.lowered accepted.types lowered.scopes lowering.maxLoweringPasses) := by
    rw [← hlower]
    exact functions_lower
  have hconnected (f : Function) (hf : f ∈ accepted.program.functions)
      (h : f.IsOrderly accepted.types lowered.scopes lowering.maxLoweringPasses) :=
    h.connected (hshaped _ (mem_functions.1 hf)).2
      { scopes := lowered.scopes, types := accepted.types }
  refine ⟨fun f hf h => ⟨?_, hconnected f hf h⟩, fun name error herror hlabel => ?_⟩
  · rw [hfunctions]
    exact List.mem_map_of_mem hf
  have hstraight (g : Global) (hg : g ∈ lowered.globals) : g.statement.All Stmt.IsStraight :=
    straight_of_lower (fun i hi => (hshaped i hi).1) (hlower ▸ hg)
  obtain ⟨f', hf', statics, hstatics, hmethod⟩ := exists_of_compile_error hstraight herror hlabel
  rw [hfunctions] at hf'
  obtain ⟨f, hf, rfl⟩ := List.mem_map.1 hf'
  refine ⟨f, hf, fun h => ?_, statics, hstatics, hmethod⟩
  have hfalse := (hconnected f hf h).2 statics _ error hstatics hmethod
  rw [hlabel] at hfalse
  cases hfalse

/-- A function with a loop, a switch, a cleanup statement and a jump back. -/
theorem labels_in_order_climb :
    acceptedClimb.result = .ok 1 ∧ acceptedClimb.program.functions.length = 1 ∧
    ∀ f ∈ acceptedClimb.program.functions, f.body.declaredLabels = ["again"] ∧
      f.IsOrderly acceptedClimb.types loweredClimb.scopes 32 ∧
      (f.lowered acceptedClimb.types loweredClimb.scopes 32).body.labels.length = 7 ∧
      (f.lowered acceptedClimb.types loweredClimb.scopes 32).body.Connected := by
  have hbuilt : climb.1.IsBuilt climb.2.types := by decide +kernel
  have hformed : ∀ i ∈ climb.1.items, i.Formed climb.1.scopes := by decide +kernel
  have hok : acceptedClimb.result = .ok 1 := by decide +kernel
  have hanalyze : climb.1.analyze {} climb.2.types [] = acceptedClimb := rfl
  have hlower : (acceptedClimb.program.lower acceptedClimb.types {}).2 = loweredClimb := rfl
  have hfunctions : ∀ f ∈ acceptedClimb.program.functions, f.body.declaredLabels = ["again"] ∧
      f.IsOrderly acceptedClimb.types loweredClimb.scopes 32 ∧
      (f.lowered acceptedClimb.types loweredClimb.scopes 32).body.labels.length = 7 := by
    decide +kernel
  have horder := labels_in_order hbuilt hformed hanalyze hok hlower rfl
  refine ⟨hok, by decide +kernel, fun f hf => ?_⟩
  obtain ⟨hlabels, horderly, hlength⟩ := hfunctions f hf
  exact ⟨hlabels, horderly, hlength, (horder.1 f hf horderly).2.1⟩

end Program

end CompilerCore
