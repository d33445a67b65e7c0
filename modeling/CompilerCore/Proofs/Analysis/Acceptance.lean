import CompilerCore.Analysis.Waves
import CompilerCore.Proofs.Analysis.Bodies
import CompilerCore.Proofs.Types.Resolution

/-!
# Accepted programs are well typed

An item that has been analyzed without errors is well typed, and later waves keep it so, since they
only add types and give types to symbols.  A program is accepted after a wave in which no item has
errors; all its items have been analyzed then.
-/

namespace CompilerCore

/-- The type of what the statement of an item returns. -/
def Item.result : Item → TypeId
  | function f => f.returnType
  | global _ => TypeId.void

/-- All types and symbols that an item mentions are in their tables. -/
@[mk_iff] structure Item.Known (n symbols : Nat) (i : Item) : Prop where
  result : i.result < n
  statement : i.statement.All (Stmt.Known n symbols)

variable {n : Nat} {p : Program}

instance (n symbols : Nat) (i : Item) : Decidable (i.Known n symbols) :=
  decidable_of_iff' _ (Item.known_iff n symbols i)

/-- All expressions of an item have types that go together. -/
def Item.Coherent (t : TypeTable) (scopes : ScopeTree) (i : Item) : Prop :=
  i.statement.All (Stmt.Coherent t scopes i.result)

/-- All expressions of an item have the types that analysis gives them. -/
def Item.WellTyped (t : TypeTable) (scopes : ScopeTree) (i : Item) : Prop :=
  i.statement.All (Stmt.WellTyped t scopes i.result)

lemma Item.WellTyped.coherent {i : Item} (h : i.WellTyped t scopes) : i.Coherent t scopes :=
  Stmt.All.mono (fun _ => Stmt.Holds.mono (fun _ he => he.coherent) fun _ => id) h

/-- A program as it is built with a type table, before it is analyzed. -/
@[mk_iff] structure Program.IsBuilt (p : Program) (t : TypeTable) : Prop where
  types : t.Sound
  symbols : p.scopes.Typed t
  entries : p.scopes.Declares t.slots.size
  pending : ∀ i ∈ p.items, i.isAnalyzed = false
  known : ∀ i ∈ p.items, i.Known t.slots.size p.scopes.symbols.size

instance (p : Program) (t : TypeTable) : Decidable (p.IsBuilt t) :=
  decidable_of_iff' _ (Program.isBuilt_iff p t)

namespace Analysis

variable {s s' : State} {scope : ScopeId}

/-! ## One wave -/

/-- An item whose types and symbols exist, and which is well typed once it has been accepted. -/
structure Admitted (tidy accepted : Prop) (s : State) (i : Item) : Prop where
  result : i.result < s.count
  statement : i.statement.All (s.Bears tidy accepted i.result)

variable {tidy : Prop} {i : Item}

lemma Admitted.extends (h : Admitted tidy accepted s i) (hs : s.Sound)
    (hext : s.Extends s') (haccepted : accepted' → accepted) : Admitted tidy accepted' s' i :=
  ⟨h.result.trans_le hext.count, hext.bears hs h.result haccepted h.statement⟩

/-- What holds of nodes that are well typed, and normal in a tidy program, holds in an accepted item. -/
lemma Admitted.holds (h : Admitted tidy True s i)
    (hP : ∀ e : Expr, (tidy → e.Normal s.types) → e.WellTyped s.types s.scopes → P e) :
    i.statement.All (Stmt.Holds P fun e => e.kind? s.types = some (s.types.kind i.result)) := by
  have hvetted (e : Expr) (he : s.Vets tidy True e) : P e := hP e he.normal (he.wellTyped trivial)
  exact h.statement.mono fun _ => Stmt.Carries.holds hvetted (fun _ _ _ hd => Expr.all_declare.2
    ⟨hP _ (fun _ => trivial) (hd.wellTyped trivial), fun e he => (hd.parts e he).mono hvetted⟩)
    fun _ hkind => hkind trivial

/-- What one examination of an item makes of the item and the state. -/
def Examined (tidy : Prop) (s : State) (r : Item × Nat) (s' : State) : Prop :=
  s.Extends s' ∧ Admitted tidy (r.1.isAnalyzed = true) s' r.1 ∧ (r.2 = 0 → r.1.isAnalyzed = true)

lemma labelErrors_quietly : Quietly t (labelErrors f labels) fun _ => True := by
  induction labels with
  | nil => exact .pure trivial
  | cons _ _ ih => exact .bind (.report _ _) fun _ _ => .bind ih fun _ _ => .pure trivial

lemma freshItem_gives (hs : s.Sound) : Gives freshItem s fun _ s' => s.Extends s' :=
  hs.extends.within 0 nofun

lemma Examined.of_checked (hext1 : s.Extends s1)
    (hi : i.result < s.count) (hresult : i'.result = i.result)
    (hchecked : Checked tidy i.result s1 (i'.statement, n) s')
    (hdone : i'.isAnalyzed = decide (m + n = 0)) : Examined tidy s (i', m + n) s' := by
  obtain ⟨hext2, hstatement⟩ := hchecked
  have hext := hext1.trans hext2
  rw [← hresult] at hi hstatement
  refine ⟨hext, ⟨hi.trans_le hext.count, State.bears_imp (fun h => ?_) hstatement⟩, fun herr => ?_⟩
  · rw [hdone, decide_eq_true_eq] at h
    exact (Nat.add_eq_zero_iff.1 h).2
  · rw [hdone]
    exact decide_eq_true herr

lemma function_gives (hs : s.Sound) (hf : Admitted tidy False s (.function f)) :
    Gives (function f) s fun r s' => Examined tidy s (.function r.1, r.2) s' := by
  refine (freshItem_gives hs).seq fun _ s1 hext1 => ?_
  refine labelErrors_quietly.gives.seq fun m s2 ⟨hquiet, _⟩ => ?_
  have hext2 := hext1.trans (hext1.sound.quiet hquiet).toExtends
  have hgiven := hf.extends hs hext2 id
  exact (stmt_checks f.body _ s2 hext2.sound hgiven.result hgiven.statement).seq
    fun (body, n) s3 hchecked => .of_checked hext2 hf.result rfl hchecked rfl

lemma global_gives (hs : s.Sound) (hg : Admitted tidy False s (.global g)) :
    Gives (global scope g) s fun r s' => Examined tidy s (.global r.1, r.2) s' := by
  refine (freshItem_gives hs).seq fun _ s1 hext1 => ?_
  have hgiven := hg.extends hs hext1 id
  refine (stmt_checks g.statement _ s1 hext1.sound hgiven.result hgiven.statement).seq
    fun (statement, n) s2 hchecked => ?_
  have hexamined : Examined tidy s (.global { g with statement, isAnalyzed := n = 0 }, 0 + n) s2 :=
    .of_checked hext1 hg.result rfl hchecked (by simp [Item.isAnalyzed])
  rwa [Nat.zero_add] at hexamined

lemma item_gives (hs : s.Sound) (hi : Admitted tidy False s i) :
    Gives (item scope i) s (Examined tidy s) := by
  cases i with
  | function => exact (function_gives hs hi).seq fun _ _ h => h
  | global => exact (global_gives hs hi).seq fun _ _ h => h

/-! ## Waves -/

/-- States of a kind `I` extend each other as `E` says when items are analyzed, and what `A` says of
items goes on to hold. -/
structure Keeps (scope : ScopeId) (I : State → Prop) (E : State → State → Prop)
    (A : State → Item → Prop) : Prop where
  quiet : ∀ {s s'}, I s → Quiet s s' → E s s'
  trans : ∀ {s s' s''}, E s s' → E s' s'' → E s s''
  stays : ∀ {s s'}, E s s' → I s'
  mono : ∀ {s s' i}, I s → E s s' → A s i → A s' i
  item : ∀ {s i}, I s → A s i → Gives (item scope i) s fun r s' =>
    E s s' ∧ A s' r.1 ∧ (r.2 = 0 → r.1.isAnalyzed = true)

lemma reportUnused_quietly (t : TypeTable) (globalScope : ScopeId) (symbols : List Symbol) :
    Quietly t (reportUnused globalScope symbols) fun _ => True := by
  induction symbols with
  | nil => exact .pure trivial
  | cons _ _ ih =>
    unfold reportUnused
    split
    · exact .bind (.report _ _) fun _ _ => ih
    · exact ih

lemma eq_zero_of_converged
    (h : waveOutcome errors previous = .converged) : errors = 0 := by
  unfold waveOutcome at h
  split at h
  · assumption
  · split at h <;> cases h

namespace Keeps

variable (hK : Keeps scope I E A)

include hK

lemma pendingItem (hs : I s) (hi : A s i) : Gives (pendingItem scope i) s fun r s' =>
    E s s' ∧ A s' r.1 ∧ (r.2.1 = 0 → r.1.isAnalyzed = true) := by
  unfold Analysis.pendingItem
  split
  · next hdone => exact ⟨hK.quiet hs (.refl s), hi, fun _ => hdone⟩
  · refine .get ((hK.item hs hi).seq fun (i', n) s1 ⟨hext, hi', hdone⟩ => ?_)
    dsimp only
    split
    · next hn =>
      have hquiet := hK.quiet (hK.stays hext) ⟨s1.diagnostics.upTo s.diagnostics.length, rfl⟩
      exact ⟨hK.trans hext hquiet, hK.mono (hK.stays hext) hquiet hi',
        fun (hzero : n = 0) => absurd hzero (Nat.ne_of_gt hn)⟩
    · next hn => exact ⟨hext, hi', fun _ => hdone (Nat.eq_zero_of_not_pos hn)⟩

lemma wave (hs : I s) (hitems : ∀ i ∈ items, A s i) :
    Gives (wave scope items) s fun r s' => E s s' ∧ (∀ i ∈ r.1, A s' i) ∧
      (r.2.1 = 0 → ∀ i ∈ r.1, i.isAnalyzed = true) := by
  induction items generalizing s with
  | nil => exact ⟨hK.quiet hs (.refl s), nofun, nofun⟩
  | cons i _ ih =>
    rw [List.forall_mem_cons] at hitems
    refine (hK.pendingItem hs hitems.1).seq fun (i', m, deferred) s1 ⟨hext1, hi', hdone⟩ => ?_
    refine (ih (hK.stays hext1) fun j hj => hK.mono hs hext1 (hitems.2 j hj)).seq
      fun (rest', n, more) s2 ⟨hext2, hrest, hall⟩ => ?_
    refine ⟨hK.trans hext1 hext2, List.forall_mem_cons.2
      ⟨hK.mono (hK.stays hext1) hext2 hi', hrest⟩, fun (herr : m + n = 0) => ?_⟩
    obtain ⟨hm, hn⟩ := Nat.add_eq_zero_iff.1 herr
    exact List.forall_mem_cons.2 ⟨hdone hm, hall hn⟩

lemma waves (config : Config) (left number : Nat) (previous : Option Nat)
    (deferred : Diagnostics) (hs : I s) (hitems : ∀ i ∈ items, A s i) :
    Gives (waves config scope left number previous deferred items) s fun r s' =>
      ∀ n, r.1 = .ok n → E s s' ∧ ∀ i ∈ r.2, A s' i ∧ i.isAnalyzed = true := by
  induction left generalizing s number previous deferred items with
  | zero => exact nofun
  | succ _ ih =>
    refine (hK.wave hs hitems).seq fun (items', errors, found) s1 ⟨hext, hitems', hdone⟩ => ?_
    dsimp only
    split
    · next hconverged =>
      have hall := hdone (eq_zero_of_converged hconverged)
      split
      · refine .get ((reportUnused_quietly _ _ _).gives.seq fun _ s2 ⟨hquiet, _⟩ _ _ => ?_)
        have hext2 := hK.quiet (hK.stays hext) hquiet
        exact ⟨hK.trans hext hext2,
          fun i hi => ⟨hK.mono (hK.stays hext) hext2 (hitems' i hi), hall i hi⟩⟩
      · exact fun _ _ => ⟨hext, fun i hi => ⟨hitems' i hi, hall i hi⟩⟩
    · refine (ih _ _ _ (hK.stays hext) hitems').imp fun r s2 hconverged n hn => ?_
      obtain ⟨hext2, hall⟩ := hconverged n hn
      exact ⟨hK.trans hext hext2, hall⟩
    · exact nofun

end Keeps

lemma Keeps.program (hK : Keeps p.globalScope I E A) (config : Config)
    (hstart : ∀ k types, s.types.resolve s.scopes = (.ok k, types) →
      I { s with types } ∧ ∀ i ∈ p.items, A { s with types } i) :
    Gives (program config p) s fun r s' => ∀ n, r.1 = .ok n → ∃ k types,
      s.types.resolve s.scopes = (.ok k, types) ∧ E { s with types } s' ∧
        ∀ i ∈ r.2, A s' i ∧ i.isAnalyzed = true := by
  unfold Analysis.program
  split
  · refine .bind fun _ _ _ => ?_
    exact nofun
  · refine .get ?_
    generalize hresolve : s.types.resolve s.scopes = r
    obtain ⟨resolution, types⟩ := r
    refine .bind fun _ s1 hset => ?_
    cases hset
    cases resolution with
    | error =>
      refine .bind fun _ _ _ => ?_
      exact nofun
    | ok k =>
      obtain ⟨hs, hitems⟩ := hstart k types hresolve
      exact (hK.waves config _ _ _ _ hs hitems).imp fun _ _ h n hn => ⟨k, types, rfl, h n hn⟩

lemma admitted_kept : Keeps scope State.Sound State.Extends
    fun s i => Admitted tidy (i.isAnalyzed = true) s i where
  quiet hs hquiet := (hs.quiet hquiet).toExtends
  trans := State.Extends.trans
  stays := State.Extends.sound
  mono hs hext hi := hi.extends hs hext id
  item hs hi := item_gives hs (hi.extends hs hs.extends False.elim)

end Analysis

/-- The integer literals of a program are given no types. -/
def Program.Untyped (p : Program) : Prop :=
  ∀ i ∈ p.items, ∀ e ∈ i.statement.exprNodes, e.integer?.isSome → e.type? = none

instance (p : Program) : Decidable p.Untyped := by
  unfold Program.Untyped
  infer_instance

lemma Program.IsBuilt.begins {types : TypeTable} (h : p.IsBuilt types) (diagnostics : Diagnostics)
    (hresolve : types.resolve p.scopes = (.ok k, types')) :
    let s : Analysis.State := { types := types', scopes := p.scopes, diagnostics }
    s.Sound ∧ ∀ i ∈ p.items, Analysis.Admitted p.Untyped (i.isAnalyzed = true) s i := by
  obtain ⟨hsound, hsize, -⟩ := h.types.resolve hresolve
  have hentries : p.scopes.Declares types'.slots.size := hsize ▸ h.entries
  refine ⟨⟨hsound, fun x type htype => hsize ▸ h.symbols x type htype, hentries, nofun⟩,
    fun i hi => ?_⟩
  have hknown := h.known i hi
  rw [← hsize] at hknown
  have hnormal (htidy : p.Untyped) : i.statement.All (Stmt.Holds (Expr.Normal types') fun _ => True) :=
    Stmt.all_holds_iff.2 fun e he => Expr.normal_of_untyped (htidy i hi e he)
  have hpending : i.isAnalyzed ≠ true := Bool.eq_false_iff.1 (h.pending i hi)
  refine ⟨hknown.result, fun m hm => ?_⟩
  have hvetted {e : Expr} (he : e.All fun e => e.Known types'.slots.size ∧ (p.Untyped → e.Normal types')) :
      e.All (Analysis.Vetted p.Untyped (i.isAnalyzed = true) types' p.scopes) :=
    he.mono fun _ ⟨hknown, hnormal⟩ => ⟨hknown, hnormal, fun hdone => absurd hdone hpending⟩
  exact ((hknown.statement m hm).carries fun htidy => hnormal htidy m hm).imp (fun _ => hvetted)
    (fun _ _ _ ⟨hx, hnote, hparts⟩ => ⟨hx, hnote, fun e he => hvetted (hparts e he),
      fun hdone => absurd hdone hpending⟩) fun _ _ _ hdone => absurd hdone hpending

section Accepted

variable {types : TypeTable} (h : p.IsBuilt types) {config : Config} {diagnostics : Diagnostics}
  {accepted : Analysis.Outcome} (hanalyze : p.analyze config types diagnostics = accepted)
  (hok : accepted.result = .ok n)

include h hanalyze hok

/-- Analysis extends the state that it begins in, and accepts only well-typed programs. -/
lemma Program.IsBuilt.extends : ∃ k types', types.resolve p.scopes = (.ok k, types') ∧
    ∃ s : Analysis.State, s.types = accepted.types ∧ s.scopes = accepted.program.scopes ∧
      Analysis.State.Extends { types := types', scopes := p.scopes, diagnostics } s ∧
      ∀ i ∈ accepted.program.items, Analysis.Admitted p.Untyped True s i := by
  subst hanalyze
  obtain ⟨k, types', hresolve, hext, hitems⟩ :=
    Analysis.admitted_kept.program config
      (fun _ _ hresolve => h.begins diagnostics hresolve) n hok
  exact ⟨k, types', hresolve, _, rfl, rfl, hext,
    fun i hi => (hitems i hi).1.extends hext.sound hext.sound.extends fun _ => (hitems i hi).2⟩

lemma Program.IsBuilt.wellTyped :
    accepted.types.Sound ∧ (∀ x, p.scopes.Knows x → accepted.program.scopes.Knows x) ∧
      ∀ i ∈ accepted.program.items, i.WellTyped accepted.types accepted.program.scopes := by
  obtain ⟨_, _, -, s, htypes, hscopes, hext, hitems⟩ := h.extends hanalyze hok
  rw [← htypes, ← hscopes]
  exact ⟨hext.sound.types, fun _ => .mono hext.symbols,
    fun i hi => (hitems i hi).holds fun _ _ h => h⟩

lemma Program.IsBuilt.analyze : accepted.types.Sound ∧
      ∀ i ∈ accepted.program.items, i.Coherent accepted.types accepted.program.scopes := by
  obtain ⟨hsound, -, hwellTyped⟩ := h.wellTyped hanalyze hok
  exact ⟨hsound, fun i hi => (hwellTyped i hi).coherent⟩

end Accepted

end CompilerCore
