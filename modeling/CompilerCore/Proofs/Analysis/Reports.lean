import CompilerCore.Analysis.Statement
import CompilerCore.Proofs.Analysis.Steps
import CompilerCore.Proofs.Tree.Induction

/-!
# Counted errors are reported

For expressions, an error has been reported exactly if errors are counted (`expr_reports`); what has
none has a type.
-/

namespace CompilerCore.Analysis

/-- The mark is set exactly if errors are counted. -/
def Counts (failed : Bool) (n : Nat) : Prop := failed = true ↔ 0 < n

lemma Counts.zero : Counts false 0 := by simp [Counts]

variable {n : Nat} {failed : Bool}

lemma Counts.pos (h : 0 < n) : Counts true n := by simp [Counts, h]

lemma Counts.eq_false (h : Counts failed 0) : failed = false := by
  simpa [Counts] using h

lemma Counts.eq_true (h : Counts failed n) (hn : 0 < n) : failed = true :=
  h.2 hn

/-- An error has been reported exactly if errors are counted. -/
abbrev Tallies (m : Analyze α) (s : State) (errors : α → Nat) : Prop :=
  Tells false m s fun failed a => Counts failed (errors a)

namespace Tells

variable {α : Type} {failed : Bool} {m : Analyze α} {s : State} {n : Nat}

lemma map {g : α → β} (h : Tells failed m s fun failed a => Q failed (g a)) :
    Tells failed (do return g (← m)) s Q :=
  h.bind fun _ _ _ => .pure

lemma after (h : Tallies m s errors)
    (hn : Counts failed n) : Tells failed m s fun failed a => Counts failed (n + errors a) := by
  obtain ⟨added, hadded, hs, hcounts⟩ := h
  refine ⟨added, hadded, hs, ?_⟩
  unfold Counts at hn hcounts ⊢
  rw [Bool.false_or] at hcounts
  rw [Bool.or_eq_true, hn, hcounts, Nat.add_pos_iff_pos_or_pos]

end Tells

/-! ## Shared steps -/

variable {s : State} {tok : Token} {c : Context}

lemma Tells.silently
    (hs : Stays s (m s).2) (hm : (m s).2.diagnostics = s.diagnostics)
    (hf : ∀ a s', Tells failed (f a) s' R) : Tells failed (m >>= f) s R :=
  Tells.bind (Q := fun failed' _ => failed' = failed) (.silent hs hm rfl) fun _ a s' h => h ▸ hf a s'

/-- A verdict counts an error that has been reported, or gives a type. -/
def Judged (failed : Bool) : Except Nat α → Prop
  | .error errors => failed = true ∧ 0 < errors
  | .ok _ => failed = false

/-- The verdict of a node that is well-typed unless its operands have errors. -/
lemma judged_of_counts {typing : α} (hk : 0 < n → 0 < k) (h : Counts failed n) :
    Judged failed (if 0 < n then .error k else .ok typing) := by
  by_cases hpos : 0 < n
  · rw [if_pos hpos]
    exact ⟨h.eq_true hpos, hk hpos⟩
  · rw [if_neg hpos]
    obtain hzero := Nat.eq_zero_of_not_pos hpos
    exact (hzero ▸ h).eq_false

/-- An error has been reported exactly if the verdict counts one. -/
abbrev Decides (m : Analyze α) (s : State) (verdict : α → Except Nat β) : Prop :=
  Tells false m s fun failed a => Judged failed (verdict a)

variable {complaint : Complaint}

lemma reject_reports (h : complaint.severity = .error) :
    Tells failed (reject tok complaint) s Judged := by
  refine (Tells.report tok).bind fun failed' _ s1 hfailed => .pure ⟨?_, Nat.one_pos⟩
  simpa [h] using hfailed

lemma error_reports (h : complaint.severity = .error) :
    Tells false (report tok complaint) s fun failed _ => Counts failed 1 := by
  refine (Tells.report tok).imp fun failed _ hfailed => ?_
  rw [h] at hfailed
  rw [show failed = true from hfailed]
  exact .pos Nat.one_pos

lemma missing_reports (h : complaint.severity = .error) :
    Tells false (do report tok complaint; return (none : Option α)) s
      fun failed found => failed = true ↔ found = none :=
  (error_reports h).bind fun _ _ _ hfailed =>
    .pure ⟨fun _ => rfl, fun _ => hfailed.eq_true Nat.one_pos⟩

lemma fold_reports : Tells false (fold e) s fun failed r =>
    Counts failed r.2 ∧ (e.type?.isSome → r.1.type?.isSome) := by
  refine .types ?_
  split
  · next e' hnode =>
    refine .pure ⟨.zero, fun htyped => ?_⟩
    unfold Fold.node at hnode
    split at hnode
    · cases hnode
      exact htyped
    · split at hnode
      · cases hnode
      · cases hnode
        exact htyped
      · cases hnode
        rfl
  · exact (error_reports rfl).bind fun _ _ _ h => .pure ⟨h, id⟩

/-- The outcome of the analysis of an expression: what is accepted has a type. -/
def Weighed (failed : Bool) (r : Expr × Nat) : Prop :=
  Counts failed r.2 ∧ (r.2 = 0 → r.1.type?.isSome)

lemma Tells.counted (h : Tells false m s Weighed) : Tallies m s (·.2) :=
  h.imp fun _ _ h => h.1

lemma Weighed.of_pos (h : Counts failed n) (hn : 0 < n) : Weighed failed (e, n) :=
  ⟨h, fun hzero => absurd hzero (Nat.ne_of_gt hn)⟩

lemma conclude_reports (h : Judged failed verdict) :
    Tells failed (conclude e verdict) s Weighed := by
  cases verdict with
  | error =>
    obtain ⟨rfl, hpos⟩ := h
    exact .pure (.of_pos (.pos hpos) hpos)
  | ok =>
    obtain rfl : failed = false := h
    refine fold_reports.imp fun failed r ⟨hcounts, htyped⟩ => ⟨hcounts, fun _ => htyped ?_⟩
    cases e <;> rfl

lemma convert_reports (target : TypeId) (e : Expr) : Tallies (convert target e) s (·.2) := by
  refine .types ?_
  split
  · exact fold_reports.imp fun _ _ h => h.1
  · exact (error_reports rfl).map

lemma convertAll_reports : Tallies (convertAll target es) s (·.2) := by
  induction es generalizing s with
  | nil => exact .pure .zero
  | cons e _ ih =>
    exact (convert_reports target e).bind fun _ _ _ hm =>
      (ih.after hm).bind fun _ _ _ hn => .pure hn

lemma unify_reports : Decides (unify lhs rhs) s (·.2.2) :=
  .types ((convert_reports _ lhs).bind fun _ _ _ hm =>
    ((convert_reports _ rhs).after hm).bind fun _ _ _ hn => .pure (judged_of_counts id hn))

/-! ## Leaves -/

lemma literalType_reports {value : Literal} :
    Tells false (literalType value) s fun failed _ => failed = false := by
  cases value with
  | _ => exact .silent ⟨rfl, rfl⟩ rfl rfl

lemma nameVerdict_reports : Decides (nameVerdict c tok name known) s (·.2) := by
  refine .silently ⟨rfl, rfl⟩ rfl fun found s1 => ?_
  cases found with
  | none => exact (reject_reports rfl).map
  | some =>
    refine .silently ⟨rfl, rfl⟩ rfl fun _ s2 => .get ?_
    dsimp only
    split
    · exact (reject_reports rfl).map
    · split
      · exact .silent ⟨rfl, rfl⟩ rfl rfl
      · exact .pure rfl

lemma qualifiedConstant_reports :
    Tells false (qualifiedConstant c tok scope member) s fun failed found =>
      (failed = true ↔ found = none) ∧ ∀ e ∈ found, e.type?.isSome := by
  have hnone {complaint : Complaint} (h : complaint.severity = .error) (s : State) :
      Tells false (do report tok complaint; return (none : Option Expr)) s fun failed found =>
        (failed = true ↔ found = none) ∧ ∀ e ∈ found, e.type?.isSome :=
    (error_reports h).bind fun _ _ _ hfailed =>
      .pure ⟨⟨fun _ => rfl, fun _ => hfailed.eq_true Nat.one_pos⟩, nofun⟩
  refine .bind (Q := fun failed _ => failed = false) ?_ fun _ owner s1 h => ?_
  · refine .get ?_
    dsimp only
    split
    · exact .pure rfl
    · exact .pure rfl
  · subst h
    cases owner with
    | none => exact hnone rfl s1
    | some =>
      refine .types ?_
      split
      · exact hnone rfl s1
      · refine .pure ⟨by simp, fun e he => ?_⟩
        obtain rfl := Option.some.inj he
        rfl

/-! ## Operators -/

lemma badOperands_reports :
    Decides (do return (lhs, rhs, ← badOperands tok operator lhs rhs)) s (·.2.2) :=
  (reject_reports rfl).map

lemma unified_reports : Decides (unified lhs rhs) s (·.2.2) := by
  refine unify_reports.bind fun _ (lhs, rhs, result) _ h => .pure ?_
  cases result with
  | _ => exact h

lemma numericVerdict_reports : Decides (numericVerdict tok op lhs rhs) s (·.2.2) := by
  refine .types ?_
  dsimp only
  split
  · exact badOperands_reports
  · split
    · split
      · exact .pure rfl
      · exact badOperands_reports
    · split
      · exact .pure rfl
      · exact badOperands_reports
    · split
      · exact .pure rfl
      · exact badOperands_reports
    · exact unified_reports

lemma arithVerdict_reports : Decides (arithVerdict tok op lhs rhs) s (·.2.2) := by
  unfold arithVerdict
  split
  · exact numericVerdict_reports
  · refine .types ?_
    split
    · exact .pure rfl
    · exact badOperands_reports
  · refine .types ?_
    split
    · exact unified_reports
    · exact badOperands_reports

lemma comparedAfter_judged (h : Counts failed errors) : Judged failed (comparedAfter errors) := by
  unfold comparedAfter
  split
  · next hzero => exact (hzero ▸ h).eq_false
  · next hne => exact ⟨h.eq_true (Nat.pos_of_ne_zero hne), Nat.one_pos⟩

lemma pointerComparison_reports : Decides (pointerComparison tok rel lhs rhs) s (·.2.2) := by
  refine .types ?_
  dsimp only
  split
  · split
    · exact .pure rfl
    · split
      · exact (convert_reports _ _).bind fun _ _ _ h => .pure (comparedAfter_judged h)
      · split
        · exact (convert_reports _ _).bind fun _ _ _ h => .pure (comparedAfter_judged h)
        · exact badOperands_reports
  · exact badOperands_reports

lemma comparisonVerdict_reports : Decides (comparisonVerdict tok rel lhs rhs) s (·.2.2) := by
  refine .types ?_
  dsimp only
  split
  · exact badOperands_reports
  · split
    · exact pointerComparison_reports
    · refine unify_reports.bind fun failed (lhs, rhs, common) s1 h => ?_
      cases common with
      | error => exact .pure h
      | ok =>
        obtain rfl : failed = false := h
        refine .types ?_
        split
        · -- The complaint about equality of floats is a warning.
          exact (Tells.report tok).bind fun _ _ _ hfailed => .pure hfailed
        · exact .pure rfl

lemma logicalVerdict_reports : Decides (logicalVerdict lhs rhs) s (·.2.2) :=
  (convert_reports _ lhs).bind fun _ _ _ hm =>
    ((convert_reports _ rhs).after hm).bind fun _ _ _ hn => .pure (judged_of_counts id hn)

lemma binaryVerdict_reports : Decides (binaryVerdict tok op lhs rhs) s (·.2.2) := by
  cases op with
  | arith => exact arithVerdict_reports
  | compare => exact comparisonVerdict_reports
  | and | or => exact logicalVerdict_reports

lemma severity_of_assignmentFault?
    (h : assignmentFault? t target = some complaint) : complaint.severity = .error := by
  unfold assignmentFault? at h
  split at h
  · cases h
    rfl
  · split at h
    · cases h
      rfl
    · cases h

lemma unaryVerdict_reports : Decides (unaryVerdict tok op operand) s (·.2) := by
  have hreject {complaint : Complaint} (h : complaint.severity = .error) :
      Decides (do return (operand, ← reject tok complaint)) s (·.2) :=
    (reject_reports h).map
  refine .types ?_
  cases op with
  | negate | complement =>
    dsimp only
    split
    · exact .pure rfl
    · exact hreject rfl
  | not => exact (convert_reports _ _).bind fun _ _ _ h => .pure (comparedAfter_judged h)
  | address =>
    dsimp only
    split
    · exact hreject rfl
    · exact .silent ⟨rfl, rfl⟩ rfl rfl
  | deref =>
    dsimp only
    split
    · split
      · exact hreject rfl
      · exact .pure rfl
    · exact hreject rfl
  | step =>
    dsimp only
    split
    · exact hreject rfl
    · split
      · next hfault => exact hreject (severity_of_assignmentFault? hfault)
      · exact .pure rfl

lemma conditionalVerdict_reports : Decides (conditionalVerdict tok yes no) s (·.2.2) := by
  refine .types ?_
  dsimp only
  split
  · exact .pure rfl
  · split
    · exact unified_reports
    · refine (convert_reports _ _).bind fun failed (no, errors) s1 h => ?_
      dsimp only at h ⊢
      split
      · next hzero => exact .pure (hzero ▸ h).eq_false
      · -- The conversion has been reported; the branches are reported as well, but counted once.
        exact (reject_reports rfl).map

/-! ## Aggregates, casts, assignments and calls -/

lemma memberVerdict_reports : Tells false (memberVerdict tok object member deref) s Judged := by
  refine .types ?_
  split
  · exact reject_reports rfl
  · split
    · exact reject_reports rfl
    · exact .pure rfl

lemma indexVerdict_reports : Tells false (indexVerdict tok base index) s Judged := by
  refine .types ?_
  split
  · exact reject_reports rfl
  · split
    · exact reject_reports rfl
    · split
      · exact reject_reports rfl
      · exact .pure rfl

lemma collectionType_reports : Tells false (collectionType tok elems expected) s fun failed found =>
      failed = true ↔ found = none := by
  refine .types ?_
  cases expected with
  | some =>
    dsimp only
    split
    · exact missing_reports rfl
    · exact .pure (by simp)
  | none =>
    dsimp only
    split
    · exact missing_reports rfl
    · exact .silent ⟨rfl, rfl⟩ rfl ⟨nofun, nofun⟩

lemma collectionVerdict_reports : Decides (collectionVerdict tok elems expected) s (·.2) := by
  refine collectionType_reports.bind fun failed array s1 h => ?_
  cases array with
  | none => exact .pure ⟨h.2 rfl, Nat.one_pos⟩
  | some =>
    obtain rfl : failed = false := by simpa using h
    exact .types (convertAll_reports.bind fun _ _ _ h => .pure (judged_of_counts id h))

lemma castVerdict_reports : Tells false (castVerdict tok operand target isImplicit) s Judged := by
  refine .types ?_
  split
  · exact .pure rfl
  · exact reject_reports rfl

lemma assignVerdict_reports : Decides (assignVerdict tok target assigned) s (·.2) := by
  refine .types ?_
  split
  · next hfault =>
    exact (reject_reports (severity_of_assignmentFault? hfault)).map
  · exact (convert_reports _ _).bind fun _ _ _ h =>
      .pure (judged_of_counts (fun _ => Nat.one_pos) h)

lemma updateVerdict_reports : Decides (updateVerdict tok op target assigned) s (·.2) := by
  refine .types ?_
  split
  · next hfault =>
    exact (reject_reports (severity_of_assignmentFault? hfault)).map
  · dsimp only
    split
    · exact (reject_reports rfl).map
    · split
      · exact .pure rfl
      · exact (convert_reports _ _).bind fun _ _ _ h =>
          .pure (judged_of_counts (fun _ => Nat.one_pos) h)

lemma callTarget_reports : Tells false (callTarget c tok callee) s fun failed found =>
      failed = true ↔ found = none := by
  refine .silently ⟨rfl, rfl⟩ rfl fun found s1 => ?_
  cases found with
  | none => exact missing_reports rfl
  | some =>
    refine .silently ⟨rfl, rfl⟩ rfl fun _ s2 => .get ?_
    split
    · exact missing_reports rfl
    · exact .pure (by simp)

lemma passArgument_reports (p : ParameterType) (argument : Expr) :
    Tallies (passArgument p argument) s (·.2) := by
  unfold passArgument
  split
  · refine .types ?_
    split
    · exact .pure .zero
    · exact (error_reports rfl).map
  · exact convert_reports _ _

lemma passArguments_reports (ps : List ParameterType) (es : List Expr) :
    Tallies (passArguments ps es) s (·.2) := by
  induction ps generalizing es s with
  | nil => exact .pure .zero
  | cons p _ ih =>
    cases es with
    | nil => exact .pure .zero
    | cons e es =>
      exact (passArgument_reports p e).bind fun _ _ _ hm =>
        ((ih es).after hm).bind fun _ _ _ hn => .pure hn

lemma callVerdict_reports : Decides (callVerdict tok callee signature args) s (·.2) := by
  unfold callVerdict
  dsimp only
  split
  · exact (reject_reports rfl).map
  · exact (passArguments_reports _ _).bind fun _ _ _ h => .pure (judged_of_counts id h)

lemma testErrors_reports {cond : Expr} : Tells false (testErrors cond) s Counts := by
  refine .types ?_
  split
  · exact .pure .zero
  · exact (error_reports rfl).map

/-! ## Expressions -/

/-- A node whose parts have been analyzed: it is left alone if they have errors, and judged else. -/
lemma node_reports (hn : Counts failed n) {make : α → Expr} {ruling : α → Verdict}
    (hverdict : Decides verdict s ruling) :
    Tells failed (if 0 < n then return (e, n) else do
      let a ← verdict
      conclude (make a) (ruling a)) s Weighed := by
  by_cases hpos : 0 < n
  · rw [if_pos hpos]
    exact .pure (.of_pos hn hpos)
  · rw [if_neg hpos]
    obtain hzero := Nat.eq_zero_of_not_pos hpos
    obtain rfl := (hzero ▸ hn).eq_false
    exact hverdict.bind fun _ _ _ h => conclude_reports h

lemma exprs_reports (h : ∀ e ∈ es, ∀ expected s, Tells false (expr c e expected) s Weighed) :
    Tallies (exprs c es expected) s (·.2) := by
  induction es generalizing s with
  | nil => exact .pure .zero
  | cons e _ ih =>
    refine (h e (.head _) expected s).bind fun _ _ s1 ⟨hm, _⟩ => ?_
    exact ((ih fun e he => h e (.tail _ he)).after hm).bind fun _ _ _ hn => .pure hn

/-- What analysis counts of an expression it has reported, and what it accepts has a type. -/
lemma expr_reports (e : Expr) (expected : Option TypeId) :
    Tells false (expr c e expected) s Weighed := by
  induction e using Expr.induction generalizing expected s with
  | literal _ literal =>
    rw [expr]
    split
    · exact .bind (Q := fun failed _ => failed = false) (.pure rfl) fun _ _ _ h =>
        conclude_reports h
    · exact literalType_reports.bind fun _ _ _ h => conclude_reports h
  | name _ name symbol =>
    exact nameVerdict_reports.bind fun _ _ _ h => conclude_reports h
  | binary _ _ _ _ ihl ihr =>
    refine (ihl none).bind fun _ _ _ h => ((ihr none).counted.after h.1).bind fun _ _ _ hn => ?_
    exact node_reports hn binaryVerdict_reports
  | unary _ _ _ ih =>
    exact (ih none).bind fun _ _ _ h => node_reports h.1 unaryVerdict_reports
  | conditional note cond yes no ihc ihy ihn =>
    -- The branches are analyzed in both cases of the test.
    have hrest (failed : Bool) (k : Nat) (hk : Counts failed k) (cond : Expr) (s : State) :
        Tells failed (conditionalBranches c note cond yes no expected k) s Weighed := by
      refine ((ihy expected).counted.after hk).bind fun _ _ _ hm =>
        ((ihn expected).counted.after hm).bind fun _ _ _ hn => ?_
      exact node_reports hn conditionalVerdict_reports
    refine (ihc none).bind fun failed r s1 h => ?_
    obtain ⟨cond, k⟩ := r
    have hk : Counts failed k := h.1
    dsimp only
    split
    · exact .bind (.pure hk) fun failed k s2 hk => hrest failed k hk cond s2
    · next hzero =>
      obtain rfl := Nat.eq_zero_of_not_pos hzero
      obtain rfl := hk.eq_false
      exact testErrors_reports.bind fun failed k s2 hk => hrest failed k hk cond s2
  | member _ _ _ _ ih =>
    exact (ih none).bind fun _ _ _ h => node_reports h.1 memberVerdict_reports
  | qualified _ scope member =>
    refine qualifiedConstant_reports.bind fun failed found s1 h => ?_
    obtain ⟨hnone, htyped⟩ := h
    cases found with
    | none =>
      obtain rfl : failed = true := hnone.2 rfl
      exact .pure (.of_pos (.pos Nat.one_pos) Nat.one_pos)
    | some e =>
      obtain rfl : failed = false := by simpa using hnone
      exact .pure ⟨.zero, fun _ => htyped e rfl⟩
  | call _ callee _ _ ih =>
    refine callTarget_reports.bind fun failed target s1 h => ?_
    cases target with
    | none =>
      obtain rfl : failed = true := h.2 rfl
      exact .pure (.of_pos (.pos Nat.one_pos) Nat.one_pos)
    | some =>
      obtain rfl : failed = false := by simpa using h
      exact (exprs_reports (fun e he expected s => ih e he expected)).bind
        fun _ _ _ hn => node_reports hn callVerdict_reports
  | index _ _ _ ihb ihi =>
    refine (ihb none).bind fun _ _ _ h => ((ihi none).counted.after h.1).bind fun _ _ _ hn => ?_
    exact node_reports hn indexVerdict_reports
  | collection _ _ ih =>
    exact .types ((exprs_reports (fun e he expected s => ih e he expected)).bind
      fun _ _ _ hn => node_reports hn collectionVerdict_reports)
  | cast _ _ _ _ ih =>
    exact (ih none).bind fun _ _ _ h => node_reports h.1 castVerdict_reports
  | assign _ _ _ iht iha =>
    refine (iht none).bind fun _ _ _ h => ((iha _).counted.after h.1).bind fun _ _ _ hn => ?_
    exact node_reports hn assignVerdict_reports
  | update _ _ _ _ iht iha =>
    refine (iht none).bind fun _ _ _ h => ((iha none).counted.after h.1).bind fun _ _ _ hn => ?_
    exact node_reports hn updateVerdict_reports
  | declare _ _ init ih =>
    cases init with
    | none =>
      refine .get ?_
      dsimp only
      split
      · exact conclude_reports rfl
      · exact (reject_reports rfl).bind fun _ _ _ h => conclude_reports h
    | some init =>
      refine .get ?_
      split
      · refine (ih init rfl _).bind fun _ _ _ h => node_reports h.1 ?_
        exact (convert_reports _ _).imp fun _ _ h =>
          judged_of_counts (fun _ => Nat.one_pos) h
      · refine (ih init rfl none).bind fun failed r s1 h => ?_
        obtain ⟨init, n⟩ := r
        obtain ⟨hn, htyped⟩ := h
        dsimp only at hn htyped ⊢
        split
        · next htype =>
          -- An initializer without errors has a type.
          have hpos : 0 < n := Nat.pos_of_ne_zero fun hzero => by simpa [htype] using htyped hzero
          rw [Nat.max_eq_left hpos]
          exact .pure (.of_pos hn hpos)
        · exact .types (.silently ⟨rfl, rfl⟩ rfl fun _ _ =>
            conclude_reports (judged_of_counts id hn))
  | sizeOf => exact .types (.pure ⟨.zero, fun _ => rfl⟩)

lemma condition_reports (e : Expr) : Tallies (condition c e) s (·.2) := by
  refine (expr_reports e none).bind fun failed (e, n) s1 ⟨hn, _⟩ => ?_
  dsimp only at hn ⊢
  split
  · exact .pure hn
  · next hzero =>
    obtain rfl := Nat.eq_zero_of_not_pos hzero
    obtain rfl := hn.eq_false
    exact testErrors_reports.map

/-! ## Parts of statements -/

lemma fault_reports (h : complaint.severity = .error) :
    Tallies (fault tok complaint) s id :=
  (error_reports h).map

lemma optionWith_reports
    (h : ∀ e, Tallies (f e) s (·.2)) (e : Option Expr) :
    Tallies (optionWith f e) s (·.2) := by
  cases e with
  | none => exact .pure .zero
  | some e => exact (h e).map

lemma returned_reports (value : Option Expr) : Tallies (returned c tok value) s (·.2) := by
  cases value with
  | none =>
    refine .types ?_
    split
    · exact .pure .zero
    · exact (fault_reports rfl).map
  | some value =>
    refine (expr_reports value _).bind fun failed (value, n) s1 ⟨hn, _⟩ => ?_
    dsimp only at hn ⊢
    split
    · exact .pure hn
    · next hzero =>
      obtain rfl := Nat.eq_zero_of_not_pos hzero
      obtain rfl := hn.eq_false
      refine .types ?_
      split
      · exact (fault_reports rfl).map
      · exact (convert_reports _ _).map

lemma switchType_reports (value : Expr) : Tells false (switchType value) s fun failed r =>
    Counts failed r.2 ∧ (r.1 = none → 0 < r.2) := by
  refine .types ?_
  split
  · exact .pure ⟨.zero, nofun⟩
  · exact (error_reports rfl).bind fun _ _ _ h => .pure ⟨h, fun _ => Nat.one_pos⟩

def partErrors : Except Nat AsmPart → Nat
  | .error errors => errors
  | .ok _ => 0

lemma asmPart_reports : Tallies (asmPart c tok asm piece) s partErrors := by
  cases piece with
  | text => exact .pure .zero
  | identifier =>
    refine .silently ⟨rfl, rfl⟩ rfl fun found s1 => ?_
    cases found with
    | some => exact .silent ⟨rfl, rfl⟩ rfl .zero
    | none =>
      dsimp only
      split
      · exact .pure .zero
      · exact (fault_reports rfl).map
  | register =>
    simp only [asmPart]
    split
    · exact .pure .zero
    · exact (fault_reports rfl).map

lemma asmParts_reports : Tallies (asmParts c tok asm pieces) s (·.2) := by
  induction pieces generalizing s with
  | nil => exact .pure .zero
  | cons piece _ ih =>
    refine asmPart_reports.bind fun _ part _ hm => (ih.after hm).bind fun _ _ _ hn => ?_
    cases part with
    | ok => exact .pure (by simpa [partErrors] using hn)
    | error => exact .pure hn

lemma inlineAsm_reports (asm : InlineAsm) : Tallies (inlineAsm c tok asm) s (·.2) := by
  unfold inlineAsm
  split
  · exact (fault_reports rfl).map
  · exact asmParts_reports.map

end CompilerCore.Analysis
