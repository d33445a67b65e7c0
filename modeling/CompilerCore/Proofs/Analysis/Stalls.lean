import CompilerCore.Proofs.Analysis.Accounts
import CompilerCore.Proofs.Analysis.Grounded
import CompilerCore.Proofs.Tree.Equality
import Mathlib.Logic.Function.Iterate

/-!
# Waves that stall

Analysis gives up after a wave with as many errors as the wave before.  The numbers alone do not tell
that nothing changed: a wave may find out a type, or convert part of an expression, and have one error in
place of another.  After a wave that changes neither the items nor the types of symbols, however, all
further waves do what it did, except that they may number types anew.

What the last wave has found is dropped, and the errors of the wave before are reported (`stalled_reports`),
also where the last wave has found other ones (`stalled_outdated`).
-/

namespace CompilerCore

open Demo Build TypeId

namespace Analysis

/-- The items and the state after one more wave. -/
def next (scope : ScopeId) (x : List Item × State) : List Item × State :=
  let r := (wave scope x.1).run x.2
  (r.1.1, r.2)

/-- The errors that one more wave counts. -/
def nextErrors (scope : ScopeId) (x : List Item × State) : Nat := ((wave scope x.1).run x.2).1.2.1

/-- What the next wave sets aside about the items that it finds errors in. -/
def nextFound (scope : ScopeId) (x : List Item × State) : Diagnostics :=
  ((wave scope x.1).run x.2).1.2.2

/-- Neither the items nor the types of symbols are different. -/
@[mk_iff] structure Unchanged (x y : List Item × State) : Prop where
  items : x.1 = y.1
  types : x.2.scopes.symbols.map (·.type) = y.2.scopes.symbols.map (·.type)

instance (x y : List Item × State) : Decidable (Unchanged x y) :=
  decidable_of_iff' _ (unchanged_iff x y)

lemma Unchanged.type_eq (h : Unchanged x y) {id : SymbolId} :
    (x.2.scopes.symbol id).type = (y.2.scopes.symbol id).type := by
  have hsym (scopes : ScopeTree) :
      (scopes.symbol id).type = (scopes.symbols.map (·.type)).getD id none := by
    simp only [ScopeTree.symbol, Array.getD_eq_getD_getElem?, Array.getElem?_map]
    cases scopes.symbols[id]? <;> rfl
  rw [hsym, hsym, h.types]

/-- The wave after `k + 1` waves, all of them with errors, is the first one with as many errors as the
wave before. -/
@[mk_iff] structure Stalls (errors : Nat → Nat) (k : Nat) : Prop where
  pending : ∀ i ≤ k, errors i ≠ 0
  first : ∀ i < k, errors (i + 1) ≠ errors i
  stall : errors (k + 1) = errors k

instance (errors : Nat → Nat) (k : Nat) : Decidable (Stalls errors k) :=
  decidable_of_iff' _ (stalls_iff errors k)

/-! ## Further waves -/

/-- What two analyses have after some waves each, if they are in step. -/
structure Setting.Abreast (g : Setting) (scope : ScopeId) (x y : List Item × State) : Prop where
  aligned : g.Aligned x.2 y.2
  items : (g.itemLink scope).list (g.Same x.2 y.2) x.1 y.1

namespace Setting.Abreast

variable {g : Setting} {scope : ScopeId} {x y : List Item × State}

lemma next (h : g.Abreast scope x y) :
    g.Abreast scope (Analysis.next scope x) (Analysis.next scope y) :=
  have hwave := wave_beside h.aligned h.items
  ⟨hwave.states, hwave.result.1⟩

lemma nextErrors (h : g.Abreast scope x y) :
    Analysis.nextErrors scope x = Analysis.nextErrors scope y :=
  (wave_beside h.aligned h.items).result.2

lemma grows (h : g.Abreast scope x x) : x.2.types.GrowsTo (Analysis.next scope x).2.types :=
  (wave_beside h.aligned h.items).left.types

lemma iterate (h : g.Abreast scope x y) (k : Nat) :
    g.Abreast scope ((Analysis.next scope)^[k] x) ((Analysis.next scope)^[k] y) := by
  induction k with
  | zero => exact h
  | succ k ih =>
    rw [Function.iterate_succ_apply', Function.iterate_succ_apply']
    exact ih.next

lemma of_unchanged (hx : g.Abreast scope x x) (hy : g.Abreast scope y y)
    (hgrows : x.2.types.GrowsTo y.2.types) (h : Unchanged x y) : g.Abreast scope x y := by
  have hlift (a b : TypeId) (hab : g.Same x.2 x.2 a b) : g.Same x.2 y.2 a b :=
    TypeTable.Same.mono (.refl _) hgrows hab
  refine ⟨⟨hx.aligned.left, hy.aligned.right, hx.aligned.names, hy.aligned.names', ?_⟩, ?_⟩
  · intro id htracked
    rw [← h.type_eq]
    exact optionRel_mono hlift (hx.aligned.symbols id htracked)
  · rw [← h.items]
    exact hx.items.imp fun _ _ => .mono hlift

/-- After a wave that changes nothing, all waves have as many errors as it has. -/
lemma nextErrors_iterate (hx : g.Abreast scope x x) (h : Unchanged x (Analysis.next scope x))
    : Analysis.nextErrors scope ((Analysis.next scope)^[j] x) =
      Analysis.nextErrors scope x := by
  have hnext : g.Abreast scope x (Analysis.next scope x) := .of_unchanged hx hx.next hx.grows h
  induction j with
  | zero => rfl
  | succ j ih => rw [Function.iterate_succ_apply, ← (hnext.iterate j).nextErrors, ih]

end Setting.Abreast

/-! ## Giving up -/

section Waves

variable (config : Config) (scope : ScopeId) {items : List Item}

lemma waves_again (h : waveOutcome (nextErrors scope (items, s)) previous = .again) :
    (waves config scope (left + 1) number previous deferred items).run s =
      (waves config scope left (number + 1) (some (nextErrors scope (items, s)))
        (nextFound scope (items, s)) (next scope (items, s)).1).run (next scope (items, s)).2 := by
  unfold next nextErrors nextFound at *
  rw [waves, StateT.run_bind]
  simp only [bind, h]

lemma waves_stalled (h : waveOutcome (nextErrors scope (items, s)) previous = .stalled) :
    (waves config scope (left + 1) number previous deferred items).run s =
      ((.error (.nonConvergence (nextErrors scope (items, s))), (next scope (items, s)).1),
        (replay deferred (next scope (items, s)).2).2) := by
  unfold next nextErrors at *
  rw [waves, StateT.run_bind]
  simp only [bind, h]
  rfl

/-- Analysis gives up after the first wave with as many errors as the wave before, and reports what that
wave has found. -/
lemma waves_of_stalls (h : Stalls (fun i => nextErrors scope ((next scope)^[i] (items, s))) k)
    (hprev : previous ≠ some (nextErrors scope (items, s))) (hleft : k + 2 ≤ left) :
    (waves config scope left number previous deferred items).run s =
      ((.error (.nonConvergence (nextErrors scope ((next scope)^[k] (items, s)))),
        ((next scope)^[k + 2] (items, s)).1),
        (replay (nextFound scope ((next scope)^[k] (items, s)))
          ((next scope)^[k + 2] (items, s)).2).2) := by
  have hagain {x : List Item × State} {previous : Option Nat} (hpend : nextErrors scope x ≠ 0)
      (hprev : previous ≠ some (nextErrors scope x)) :
      waveOutcome (nextErrors scope x) previous = .again := by
    rw [waveOutcome, if_neg hpend, if_neg hprev]
  induction k generalizing left number previous deferred items s with
  | zero =>
    obtain ⟨left, rfl⟩ : ∃ l, left = l + 2 := ⟨left - 2, by omega⟩
    have hstall : nextErrors scope (next scope (items, s)) = nextErrors scope (items, s) := h.stall
    have hpend : nextErrors scope (items, s) ≠ 0 := h.pending 0 (le_refl 0)
    rw [waves_again config scope (hagain hpend hprev), waves_stalled config scope, hstall]
    · rfl
    · rw [waveOutcome, hstall, if_neg hpend, if_pos rfl]
  | succ k ih =>
    obtain ⟨left, rfl⟩ : ∃ l, left = l + 1 := ⟨left - 1, by omega⟩
    rw [waves_again config scope (hagain (h.pending 0 (Nat.zero_le _)) hprev), ih]
    · rfl
    · exact ⟨fun i hi => h.pending (i + 1) (by omega), fun i hi => h.first (i + 1) (by omega), h.stall⟩
    · intro heq
      exact h.first 0 (Nat.succ_pos k) (Option.some.inj heq).symm
    · omega

end Waves

/-- The errors of items are set aside, so that waves report none. -/
lemma iterate_clean (scope : ScopeId) (x : List Item × State) (k : Nat) :
    Clean x.2 ((next scope)^[k] x).2 := by
  induction k with
  | zero => exact .refl x.2
  | succ k ih =>
    rw [Function.iterate_succ_apply']
    exact ih.trans (wave_clean scope _ _).1

end Analysis

namespace Program

open Analysis

/-- The items of a program and the state of its analysis after a number of waves. -/
def afterWaves (p : Program) (types : TypeTable) (diagnostics : Diagnostics) (k : Nat) :
    List Item × State :=
  (next p.globalScope)^[k] (p.items, p.ready types diagnostics)

/-- The errors that a program's wave number `k + 1` counts. -/
def waveErrors (p : Program) (types : TypeTable) (diagnostics : Diagnostics) (k : Nat) : Nat :=
  nextErrors p.globalScope (p.afterWaves types diagnostics k)

/-- What a program's wave number `k + 1` reports. -/
def waveFound (p : Program) (types : TypeTable) (diagnostics : Diagnostics) (k : Nat) : Diagnostics :=
  nextFound p.globalScope (p.afterWaves types diagnostics k)

lemma analyze_of_stalls {p : Program} {types : TypeTable} {config : Config} {diagnostics : Diagnostics}
    {n k : Nat} (hresult : (p.analyze config types diagnostics).result = .error (.nonConvergence n))
    (hstalls : Stalls (p.waveErrors types diagnostics) k) (hwaves : k + 2 ≤ config.maxWaves) :
    (∃ order, (types.resolve p.scopes).1 = .ok order) ∧ p.waveErrors types diagnostics k = n ∧
      (p.analyze config types diagnostics).diagnostics =
        (p.afterWaves types diagnostics (k + 2)).2.diagnostics ++ p.waveFound types diagnostics k := by
  obtain ⟨error, hne, herror⟩ | ⟨hresolve, hrun⟩ := p.analyze_cases types config diagnostics
  · have heq := (herror p.items).symm.trans hresult
    exact absurd (Except.error.inj heq) (hne n)
  · have hgives := hrun p.items
    rw [waves_of_stalls config p.globalScope hstalls (Option.some_ne_none _).symm hwaves] at hgives
    have hn := (congrArg Outcome.result hgives).symm.trans hresult
    exact ⟨hresolve, AnalysisError.nonConvergence.inj (Except.error.inj hn),
      congrArg Outcome.diagnostics hgives⟩

/-- If analysis gives up after a wave with as many errors as the wave before, then it reports what the
wave before has set aside, with at least one error, and no other error. -/
theorem stalled_reports {p : Program} {types : TypeTable} {config : Config} {diagnostics : Diagnostics}
    {n k : Nat} (hresult : (p.analyze config types diagnostics).result = .error (.nonConvergence n))
    (hstalls : Stalls (p.waveErrors types diagnostics) k) (hwaves : k + 2 ≤ config.maxWaves) :
    p.waveErrors types diagnostics k = n ∧ p.waveErrors types diagnostics (k + 1) = n ∧
    (p.waveFound types diagnostics k).hasErrors = true ∧
    ∃ kept : Diagnostics, kept.hasErrors = false ∧
      (p.analyze config types diagnostics).diagnostics =
        diagnostics ++ kept ++ p.waveFound types diagnostics k := by
  obtain ⟨-, hn, hreports⟩ := analyze_of_stalls hresult hstalls hwaves
  obtain ⟨kept, hkept, hnone⟩ :=
    iterate_clean p.globalScope (p.items, p.ready types diagnostics) (k + 2)
  have hcounts : Counts (p.waveFound types diagnostics k).hasErrors (p.waveErrors types diagnostics k) :=
    (wave_clean p.globalScope _ _).2
  exact ⟨hn, hstalls.stall.trans hn, hcounts.eq_true (Nat.pos_of_ne_zero (hstalls.pending k le_rfl)),
    kept, hnone, by rw [hreports, afterWaves, hkept]; rfl⟩

/-- If analysis gives up after a wave with as many errors as the wave before, and this wave has changed
nothing, then further waves would have errors too, and always as many. -/
theorem stall_is_final {p : Program} {types : TypeTable} (h : p.Grounded types) {config : Config}
    {diagnostics : Diagnostics} {n k : Nat}
    (hresult : (p.analyze config types diagnostics).result = .error (.nonConvergence n))
    (hstalls : Stalls (p.waveErrors types diagnostics) k) (hwaves : k + 2 ≤ config.maxWaves)
    (hunchanged : Unchanged (p.afterWaves types diagnostics (k + 1))
      (p.afterWaves types diagnostics (k + 2))) :
    n ≠ 0 ∧ ∀ j, p.waveErrors types diagnostics (k + 1 + j) = n := by
  obtain ⟨⟨_, hresolve⟩, hn, -⟩ := analyze_of_stalls hresult hstalls hwaves
  obtain ⟨g, hbegins⟩ := h.begins diagnostics hresolve
  have hstart : g.Abreast p.globalScope (p.items, p.ready types diagnostics)
      (p.items, p.ready types diagnostics) :=
    ⟨hbegins.aligned, List.forall₂_same.2 fun i hi => hbegins.like (h.items i hi)⟩
  refine ⟨hn ▸ hstalls.pending k (le_refl k), fun j => ?_⟩
  have hlast := hstart.iterate (k + 1)
  have hnext : p.afterWaves types diagnostics (k + 2) =
      next p.globalScope (p.afterWaves types diagnostics (k + 1)) :=
    Function.iterate_succ_apply' _ _ _
  rw [hnext] at hunchanged
  calc p.waveErrors types diagnostics (k + 1 + j)
    _ = nextErrors p.globalScope
        ((next p.globalScope)^[j] (p.afterWaves types diagnostics (k + 1))) := by
      rw [waveErrors, afterWaves, afterWaves, ← Function.iterate_add_apply, Nat.add_comm j]
    _ = p.waveErrors types diagnostics (k + 1) := hlast.nextErrors_iterate hunchanged
    _ = n := hstalls.stall.trans hn

end Program

/-- A function `i64 f(i32 n)` with the body `sum = n + 1; first = sum; return sum;` and variables
`first = second` and `second = first`. -/
def circle : Program × Session :=
  (Session.start {}).build "circle" do
    let _ ← function "f" i64 [{ name := "n", type := i32 }] do
      let sum ← binary (.arith .add) (← ident "n") (← int 1)
      let declaration ← localVar "sum" none (some sum)
      let store ← perform (← assign (← ident "first") (← ident "sum"))
      return [declaration, store, ← giveBack (← ident "sum")]
    let _ ← global "first" none (some (← ident "second"))
    global "second" none (some (← ident "first"))

/-- The first wave finds the type of `sum` and converts the returned value; the second one changes
nothing. -/
theorem Program.stall_is_final_circle :
    (circle.1.analyze {} circle.2.types []).result = .error (.nonConvergence 3) ∧
    ¬Analysis.Unchanged (circle.1.afterWaves circle.2.types [] 0)
      (circle.1.afterWaves circle.2.types [] 1) ∧
    ∀ j, circle.1.waveErrors circle.2.types [] (1 + j) = 3 := by
  have hgrounded : circle.1.Grounded circle.2.types :=
    ⟨by decide +kernel,
      TypeTable.acyclic_of_rank (fun id => (circle.2.types.shape id).parts.length) (by decide +kernel),
      by decide +kernel, by decide +kernel, by decide +kernel⟩
  have hresult : (circle.1.analyze {} circle.2.types []).result = .error (.nonConvergence 3) := by
    decide +kernel
  exact ⟨hresult, by decide +kernel,
    (stall_is_final hgrounded hresult (k := 0) (by decide +kernel) (by decide) (by decide +kernel)).2⟩

/-- A function `void f(f64 *y, f64 *z)` with the body `a = [x, y, z];` and variables
`x = (i32 *)null`, `a = b` and `b = [true, true, true]`. -/
def trade : Program × Session :=
  (Session.start {}).build "trade" do
    let integer ← types (·.pointerTo i32)
    let real ← types (·.pointerTo f64)
    let list (elements : List Expr) : Build Expr := expr (.collection · elements)
    let yes : Build Expr := expr (.literal · (.bool true))
    let _ ← function "f" void [{ name := "y", type := real }, { name := "z", type := real }] do
      let target ← ident "a"
      let values ← list [← ident "x", ← ident "y", ← ident "z"]
      return [← perform (← assign target values)]
    let null ← expr (.literal · .null)
    let _ ← global "x" none (some (← expr (.cast · null integer false)))
    let _ ← global "a" none (some (← ident "b"))
    global "b" none (some (← list [← yes, ← yes, ← yes]))

/-- A function `void f(bool c, i32 *const fixed, void *raw, i32 *p)` with the body
`c ? (c ? fixed : (void *)(c ? (c ? fixed : raw) : p)) : p;` -/
def choices : Program × Session :=
  (Session.start {}).build "choices" do
    let pointer ← types (·.pointerTo i32)
    let fixed ← types (·.immutable pointer)
    let raw ← types (·.pointerTo void)
    let choose (yes no : Expr) : Build Expr := do
      let c ← ident "c"
      expr (.conditional · c yes no)
    function "f" void
      [{ name := "c", type := bool }, { name := "fixed", type := fixed },
        { name := "raw", type := raw }, { name := "p", type := pointer }] do
      let inner ← choose (← choose (← ident "fixed") (← ident "raw")) (← ident "p")
      let outer ← choose (← ident "fixed") (← expr (.cast · inner raw false))
      return [← perform (← choose outer (← ident "p"))]

/-- Two waves with as many errors each may be followed by a wave without errors: if types of symbols were
found out in the second one, and also if only the items were changed. -/
theorem Program.stalled_before_accepted :
    (trade.1.IsBuilt trade.2.types ∧
      (trade.1.analyze {} trade.2.types []).result = .error (.nonConvergence 3) ∧
      Analysis.Stalls (trade.1.waveErrors trade.2.types []) 0 ∧
      trade.1.waveErrors trade.2.types [] 2 = 0) ∧
    choices.1.IsBuilt choices.2.types ∧
      (choices.1.analyze {} choices.2.types []).result = .error (.nonConvergence 1) ∧
      Analysis.Stalls (choices.1.waveErrors choices.2.types []) 0 ∧
      (∀ x ∈ choices.1.scopes.symbols, x.type ≠ none) ∧
      choices.1.waveErrors choices.2.types [] 2 = 0 := by
  decide +kernel

/-- A function `i32 f()` with the body `return x.y;` and a variable `x = 5`. -/
def outdated : Program × Session :=
  (Session.start {}).build "outdated" do
    let _ ← function "f" i32 [] do
      return [← giveBack (← member (← ident "x") "y")]
    global "x" none (some (← int 5))

theorem Program.stalled_reports_outdated :
    (outdated.1.analyze {} outdated.2.types []).result = .error (.nonConvergence 1) ∧
    ∃ kept : Diagnostics, kept.hasErrors = false ∧
      (outdated.1.analyze {} outdated.2.types []).diagnostics =
        [] ++ kept ++ outdated.1.waveFound outdated.2.types [] 0 := by
  have hresult : (outdated.1.analyze {} outdated.2.types []).result = .error (.nonConvergence 1) := by
    decide +kernel
  obtain ⟨-, -, -, hkept⟩ := stalled_reports hresult (k := 0) (by decide +kernel) (by decide)
  exact ⟨hresult, hkept⟩

/-- The last wave finds that `x` is not a struct; that its type is not known has been found before, but
holds no longer. -/
theorem Program.stalled_outdated :
    outdated.1.IsBuilt outdated.2.types ∧
    (outdated.1.analyze {} outdated.2.types []).result = .error (.nonConvergence 1) ∧
    Analysis.Stalls (outdated.1.waveErrors outdated.2.types []) 0 ∧
    (outdated.1.analyze {} outdated.2.types []).diagnostics.map (·.tag) = ["unknown-type"] ∧
    (outdated.1.waveFound outdated.2.types [] 1).map (·.tag) = ["not-a-struct"] ∧
    ∃ x ∈ (outdated.1.analyze {} outdated.2.types []).program.scopes.symbols.toList,
      x.name = "x" ∧ x.type = some i32 := by
  decide +kernel

end CompilerCore
