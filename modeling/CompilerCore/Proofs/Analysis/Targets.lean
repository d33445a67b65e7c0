import CompilerCore.Demo
import CompilerCore.Proofs.Analysis.Acceptance

/-!
# What accepted programs assign to

Nothing of an immutable type is assigned to, and the name of an immutable variable has an immutable
type.  A part of such a variable has the type of the member or the element, which need not be
immutable: analysis accepts assignments to parts.
-/

namespace CompilerCore

open Demo Build

/-- A variable that is marked as immutable, or whose type is immutable. -/
def ScopeTree.Fixes (scopes : ScopeTree) (t : TypeTable) (x : SymbolId) : Prop :=
  (scopes.symbol x).isImmutable = true ∨ ∃ type ∈ (scopes.symbol x).type, t.isImmutable type = true

instance (scopes : ScopeTree) (t : TypeTable) (x : SymbolId) : Decidable (scopes.Fixes t x) := by
  unfold ScopeTree.Fixes
  infer_instance

namespace Expr

/-- The variable that an access path of members and elements starts at. -/
def root? : Expr → Option SymbolId
  | name _ _ symbol => symbol
  | member _ object _ false => object.root?
  | index _ base _ => base.root?
  | literal .. | binary .. | unary .. | conditional .. | member .. | qualified .. | call ..
  | collection .. | cast .. | assign .. | update .. | declare .. | sizeOf .. => none

variable {t : TypeTable} {scopes : ScopeTree} {note : Note} {text : String} {x : SymbolId} {e : Expr}

lemma Named.isImmutable (h : (name note text (some x)).Named t scopes) (ht : t.Marked)
    (hx : scopes.Fixes t x) : ∃ type ∈ note.type, t.isImmutable type = true := by
  obtain ⟨htype, hflag⟩ | ⟨type, htype, hqual⟩ := h
  · rw [htype]
    exact hx.resolve_left (by simp [hflag])
  · exact ⟨type, htype, ht.isImmutable hqual⟩

lemma All.assigned (h : e.All P) (ht : target ∈ e.assigned?) : P target := by
  cases e with
  | assign => obtain rfl := Option.some.inj ht; exact (all_assign.1 h).2.1.self
  | update => obtain rfl := Option.some.inj ht; exact (all_update.1 h).2.1.self
  | unary _ op =>
    cases op with
    | step => obtain rfl := Option.some.inj ht; exact (all_unary.1 h).2.self
    | _ => cases ht
  | _ => cases ht

lemma All.spares (h : e.All (WellTyped t scopes)) (ht : t.Marked) (htgt : target ∈ e.assigned?)
    (hx : target.root? = some x) (hfixed : scopes.Fixes t x) : target.isName = false := by
  cases target with
  | name =>
    obtain rfl := hx
    obtain ⟨type, htype, himm⟩ := (h.assigned htgt).named.isImmutable ht hfixed
    have hspared := h.self.spares _ htgt type htype
    simp [himm] at hspared
  | _ => rfl

end Expr

namespace Program

/-- An accepted program assigns, in whatever way, only to places whose types are not immutable.  Hence
an immutable variable is never assigned to itself: a target that starts at it is a part of it.
Analysis changes nothing about which variables are marked as immutable. -/
theorem immutable_never_assigned {p : Program} {types : TypeTable} (hbuilt : p.IsBuilt types)
    (hmarked : types.Marked) {config : Config} {diagnostics : Diagnostics} {accepted : Analysis.Outcome}
    (hanalyze : p.analyze config types diagnostics = accepted) {n : Nat}
    (hok : accepted.result = .ok n) :
    (∀ x, (accepted.program.scopes.symbol x).isImmutable = (p.scopes.symbol x).isImmutable) ∧
    ∀ i ∈ accepted.program.items, ∀ e ∈ i.statement.exprNodes, ∀ target ∈ e.assigned?,
      (∀ type ∈ target.type?, accepted.types.isImmutable type = false) ∧
      ∀ x ∈ target.root?, accepted.program.scopes.Fixes accepted.types x → target.isName = false := by
  obtain ⟨k, types', hresolve, s, htypes, hscopes, hext, hitems⟩ := hbuilt.extends hanalyze hok
  rw [← htypes, ← hscopes]
  have hmarked' : s.types.Marked :=
    hext.types.marked ((hbuilt.types.resolve hresolve).2.2 hmarked)
  refine ⟨hext.flags, fun i hi e he target htarget => ?_⟩
  have hall : i.statement.All (Stmt.Holds (·.All (Expr.WellTyped s.types s.scopes)) _) :=
    ((hitems i hi).holds fun _ _ h => h).mono fun _ h =>
      h.imp (fun _ h => Expr.All.imp (fun _ h _ => h) h h) fun _ _ => id
  have he := Stmt.All.exprNodes hall e he
  exact ⟨he.self.spares target htarget, fun x hroot => he.spares hmarked' htarget hroot⟩

/-- A function that counts in a local variable and reads an immutable one. -/
def counting : Program × Session :=
  (Session.start {}).build "counting" do
    let fixed ← types (·.immutable TypeId.i32)
    function "counting" TypeId.i32 [{ name := "n", type := fixed }] do
      let count ← localVar "count" (some TypeId.i32) (some (← ident "n"))
      let target ← ident "count"
      let increment ← perform (← expr (.unary · (.step true true) target))
      return [count, increment, ← giveBack (← ident "count")]

def acceptedCounting : Analysis.Outcome := counting.1.analyze {} counting.2.types []

theorem immutable_never_assigned_counting :
    acceptedCounting.result = .ok 1 ∧
    acceptedCounting.program.exprNodes.any (·.assigned?.isSome) = true ∧
    ∀ i ∈ acceptedCounting.program.items, ∀ e ∈ i.statement.exprNodes, ∀ target ∈ e.assigned?,
      ∀ x ∈ target.root?, acceptedCounting.program.scopes.Fixes acceptedCounting.types x →
        target.isName = false := by
  have hbuilt : counting.1.IsBuilt counting.2.types := by decide +kernel
  have hmarked : counting.2.types.Marked := by decide +kernel
  have hok : acceptedCounting.result = .ok 1 := by decide +kernel
  have hanalyze : counting.1.analyze {} counting.2.types [] = acceptedCounting := rfl
  exact ⟨hok, by decide +kernel, fun i hi e he target ht =>
    ((immutable_never_assigned hbuilt hmarked hanalyze hok).2 i hi e he target ht).2⟩

def altering : Program × Session :=
  (Session.start {}).build "altering" do
    let box ← record "Box" [⟨"x", TypeId.i32⟩] false
    function "altering" TypeId.i32 [] do
      let s ← declareLocal "s" (some box)
      modifySymbol s ({ · with isImmutable := true })
      let s ← init s none
      let target ← member (← ident "s") "x"
      let set ← perform (← assign target (← int 1))
      return [s, set, ← giveBack (← member (← ident "s") "x")]

def acceptedAltering : Analysis.Outcome := altering.1.analyze {} altering.2.types []

/-- A part of an immutable variable is assigned to. -/
theorem immutable_part_assigned :
    acceptedAltering.result = .ok 1 ∧
    ∃ i ∈ acceptedAltering.program.items, ∃ e ∈ i.statement.exprNodes, ∃ target ∈ e.assigned?,
      ∃ x ∈ target.root?, acceptedAltering.program.scopes.Fixes acceptedAltering.types x := by
  decide +kernel

end Program

end CompilerCore
