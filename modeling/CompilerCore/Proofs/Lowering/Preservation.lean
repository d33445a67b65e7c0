import CompilerCore.Proofs.Lowering.Normal
import CompilerCore.Proofs.Lowering.Refinement

/-!
# Lowering preserves meaning

Repeated passes over the control flow of an accepted body end with labels and jumps that have the
same outcomes as the loops and switches of the body, whatever its expressions mean.
-/

namespace CompilerCore

open ControlFlow

/-- Whether analysis of some body of a function ends with this one and without errors. -/
def Analysis.Accepts (body : Stmt) : Prop :=
  ∃ (scope : ScopeId) (returnType : TypeId) (labels : List String) (given : Stmt) (s : State),
    s.switch = none ∧ (stmt { scope, returnType, labels } given s).1 = (body, 0)

namespace Stmt

variable {s : Stmt} {p : Place}

lemma allPlaced_iff :
    allPlaced inLoop isBreakable ss = true ↔ ∀ s ∈ ss, s.isPlaced inLoop isBreakable = true := by
  induction ss with
  | nil => simp [allPlaced]
  | cons _ _ ih => simp [allPlaced, ih]

lemma allStructured_iff : allStructured p ss = true ↔ ∀ s ∈ ss, s.isStructured p = true := by
  induction ss with
  | nil => simp [allStructured]
  | cons _ _ ih => simp [allStructured, ih]

lemma DoneIn.isPlaced (h : s.DoneIn passes site) :
    s.isPlaced site.inLoop site.isBreakable = true := by
  induction s using Stmt.induction generalizing site with
  | block tok scope body ih | seq tok body ih =>
    exact allPlaced_iff.2 fun s hs => ih s hs (allDoneIn_iff.1 h s hs)
  | branch _ _ _ no ihy ihn =>
    cases no with
    | none => exact ihy h.2
    | some no => simp [Stmt.isPlaced, ihy h.2.1, ihn no rfl h.2.2]
  | whileLoop _ _ _ ih => exact ih h.2.2
  | doLoop _ _ _ ih => exact ih h.2
  | forLoop _ first _ _ body ihf ih =>
    cases first with
    | none => exact ih h.2
    | some first =>
      have hbody : body.isPlaced true true = true := ih h.2.2
      simp [Stmt.isPlaced, ihf first rfl h.2.1, hbody]
  | switch _ _ _ own ih =>
    cases own with
    | none => exact ih h.2.2
    | some => exact ih h.2.2
  | cleanup _ _ ih => exact ih h
  | breakLoop => exact h.2
  | continueLoop => exact h.2
  | caseLabel => exact h.2.2
  | _ => rfl

/-- A statement that neither is a label nor has labels. -/
def HasNoLabels (s : Stmt) : Prop := s.IsUnlabelled ∧ ∀ token name, s ≠ .label token name

lemma isStructured_parts (hs : s.isStructured p = true) :
    ∀ part ∈ s.parts, ∃ p', part.isStructured p' = true := by
  cases s with
  | block | seq => exact fun part hmem => ⟨_, allStructured_iff.1 hs part hmem⟩
  | branch _ _ _ no => cases no <;> simp_all [isStructured, parts] <;> grind
  | forLoop _ first => cases first <;> simp_all [isStructured, parts] <;> grind
  | switch _ _ _ own =>
    cases own <;> simp_all [isStructured, parts]
    grind
  | _ => simp_all [isStructured, parts] <;> grind

lemma hasNoLabels (hs : s.isStructured p = true) : s.HasNoLabels := by
  cases s with
  | label => cases hs
  | switch _ _ _ own =>
    cases own with
    | none => exact ⟨rfl, by simp⟩
    | some => cases hs
  | _ => exact ⟨trivial, by simp⟩

lemma all_hasNoLabels (hs : s.isStructured p = true) : s.All HasNoLabels := by
  induction s using parts_induction generalizing p with
  | step s ih =>
    refine all_iff.2 ⟨hasNoLabels hs, fun part hmem => ?_⟩
    obtain ⟨p', hp⟩ := isStructured_parts hs part hmem
    exact ih part hmem hp

lemma labels_eq_nil (hs : s.isStructured p = true) : s.labels = [] := by
  have hall := all_hasNoLabels hs
  rw [labels_eq_declaredLabels s (hall.mono fun _ h => h.1)]
  refine List.filterMap_eq_nil_iff.2 fun n hn => ?_
  cases n with
  | label tok name => exact absurd rfl ((hall _ hn).2 tok name)
  | _ => rfl

end Stmt

lemma Analysis.Accepts.isPlaced (h : Accepts body) (hs : body.isStructured p = true) :
    body.hasSingleDefaults = true ∧ ∃ labels, body.DoneIn 2 { labels } := by
  obtain ⟨scope, returnType, labels, given, s, hsw, hrun⟩ := h
  have houtlined := stmt_outlined given { scope, returnType, labels } s
  rw [Gives, hrun] at houtlined
  have happroved := houtlined.approved rfl ((Stmt.all_hasNoLabels hs).mono fun _ h => h.1)
  have hdone := happroved.done
  rw [Context.site, hsw] at hdone
  exact ⟨happroved.single, labels, hdone⟩

namespace ControlFlow

variable {body : Stmt} (hs : body.isStructured .elsewhere = true) {labels : List String}
  (hdone : body.DoneIn 2 { labels }) (types : TypeTable) (scopes : ScopeTree) (n : Nat)

include hdone

include hs in
lemma lowered_pass_pass :
    Lowered ⟨none, none⟩ body (pass types scopes (pass types scopes (body, n)).2).2.1 := by
  have hplaced : body.isPlaced false false = true := hdone.isPlaced
  exact lowersTwice body { types, scopes } { types, scopes } { nextLabel := n } _ hs hplaced
    ⟨fun h => absurd h (by decide), fun h => absurd h (by decide)⟩ (absurd rfl)

lemma pass_pass_pass_quiet :
    (pass types scopes (pass types scopes (pass types scopes (body, n)).2).2).1 = 0 := by
  obtain ⟨twice, rfl, -, hquiet⟩ :=
    (lowersInTwo_of_doneIn hdone : LowersInTwo types scopes (body, n))
  rw [hquiet]

lemma repeatPass_pass (hlimit : 2 ≤ limit) : (repeatPass (pass types scopes) limit (body, n)).2 =
      (pass types scopes (pass types scopes (body, n)).2).2 :=
  repeatPass_eq_twice (pass_quiet types scopes) (pass_pass_pass_quiet hdone types scopes n) hlimit

omit hdone in
include hs in
lemma nodup_labels_repeatPass (hd : body.hasSingleDefaults = true) (limit : Nat) :
    (repeatPass (pass types scopes) limit (body, n)).2.1.labels.Nodup := by
  have hstart : HasDistinctLabels (body, n) := by
    refine ⟨?_, fun id suffix hmem => ?_, hd⟩
    · rw [Stmt.labels_eq_nil hs]
      exact List.nodup_nil
    · rw [Stmt.labels_eq_nil hs] at hmem
      cases hmem
  exact (repeatPass_keeps (fun body h => h.pass types scopes) limit hstart).nodup

end ControlFlow

/-- Lowering preserves meaning: passes that are repeated until nothing changes turn an accepted body
of loops, branches, switches and jumps out of them into labels and jumps with the same outcomes. -/
theorem ends_repeatPass_iff {σ ε : Type} {M : Meaning σ ε} (hM : M.Lawful) {body : Stmt}
    (haccepted : Analysis.Accepts body) (hs : body.isStructured .elsewhere = true)
    (types : TypeTable) (scopes : ScopeTree) (n : Nat) {limit : Nat} (hlimit : 2 ≤ limit) :
    (pass types scopes (repeatPass (pass types scopes) limit (body, n)).2).1 = 0 ∧
    ∀ (s : σ) (outcome : Outcome σ ε),
      Structured.Ends M body s outcome ↔
        Goto.Ends M (repeatPass (pass types scopes) limit (body, n)).2.1 s outcome := by
  obtain ⟨hd, labels, hdone⟩ := haccepted.isPlaced hs
  have hnodup := nodup_labels_repeatPass hs types scopes n hd limit
  rw [repeatPass_pass hdone types scopes n hlimit] at hnodup ⊢
  refine ⟨pass_pass_pass_quiet hdone types scopes n, fun s outcome => ?_⟩
  exact ends_iff_of_lowered hM (lowered_pass_pass hs hdone types scopes n) hnodup s outcome

/-! ## A loop with a switch -/

/-- The value of a literal or of the negation of such a value. -/
def Expr.literalValue? : Expr → Option Int64
  | .literal _ value => value.integer?
  | .unary _ .not operand => (literalValue? operand).map fun n => if n = 0 then 1 else 0
  | _ => none
termination_by structural e => e

/-- The meaning in which literals and negations have values and nothing else does. -/
def Meaning.ofLiterals : Meaning Unit Unit where
  eval e s :=
    match e.literalValue? with
    | some n => .ok (n, s)
    | none => .error ()
  constant _ n := n
  abort := ()

lemma Meaning.lawful_ofLiterals : Meaning.ofLiterals.Lawful where
  literal note value n s h := by simp [ofLiterals, Expr.literalValue?, h]
  not note e s := by
    simp only [ofLiterals, Expr.literalValue?]
    cases e.literalValue? <;> rfl
  abort note s := rfl

/-- A loop around a switch with cases that leave it, fall through and go on with the loop. -/
def switchInLoop : Stmt :=
  let t : Token := .synthesized
  let number (n : Int64) : Expr := .literal { token := t } (.integer n)
  let truth (b : Bool) : Expr := .literal { token := t } (.bool b)
  .block t 0
    [.doLoop t
      (.block t 0
        [.switch t (number 1)
          (.block t 0 [.caseLabel t (number 0), .breakLoop t, .caseLabel t (number 1),
            .assertion t (truth true) none, .defaultLabel t, .continueLoop t]) none,
        .ret t (some (number 3))])
      (truth false),
    .forLoop t none none none (.breakLoop t),
    .ret t (some (number 7))]

/-- What analysis makes of it, with the number of its errors. -/
def analyzedSwitchInLoop : Stmt × Nat :=
  (Analysis.stmt { scope := 0, returnType := TypeId.i32, labels := [] } switchInLoop
    { types := .start 8 8, scopes := {}, diagnostics := [] }).1

theorem ends_repeatPass_iff_switchInLoop :
    Meaning.ofLiterals.Lawful ∧ Analysis.Accepts analyzedSwitchInLoop.1 ∧
    analyzedSwitchInLoop.1.isStructured .elsewhere = true ∧ 2 ≤ 3 ∧
    (pass (.start 8 8) {}
      (repeatPass (pass (.start 8 8) {}) 3 (analyzedSwitchInLoop.1, 0)).2).1 = 0 ∧
    ∀ (s : Unit) (outcome : Outcome Unit Unit),
      Structured.Ends .ofLiterals analyzedSwitchInLoop.1 s outcome ↔
        Goto.Ends .ofLiterals
          (repeatPass (pass (.start 8 8) {}) 3 (analyzedSwitchInLoop.1, 0)).2.1 s outcome := by
  have haccepted : Analysis.Accepts analyzedSwitchInLoop.1 := by
    have herrors : analyzedSwitchInLoop.2 = 0 := by decide +kernel
    exact ⟨0, TypeId.i32, [], switchInLoop, { types := .start 8 8, scopes := {}, diagnostics := [] },
      rfl, Prod.ext rfl herrors⟩
  have hs : analyzedSwitchInLoop.1.isStructured .elsewhere = true := by decide +kernel
  exact ⟨Meaning.lawful_ofLiterals, haccepted, hs, by decide,
    ends_repeatPass_iff Meaning.lawful_ofLiterals haccepted hs (.start 8 8) {} 0 (by decide)⟩

end CompilerCore
