import CompilerCore.Lowering.Fixpoint
import CompilerCore.Proofs.Lowering.Supply

/-!
# The end of lowering

Repeated passes keep what every pass keeps, and they stop with what two passes make of a body if a third
one finds nothing to do.  Passes keep the labels of a body distinct.
-/

namespace CompilerCore

open Stmt

/-! ## Repeated passes -/

section Repeat

variable {pass : σ → Nat × σ}

lemma repeatPass_succ (limit : Nat) (s : σ) : (repeatPass pass (limit + 1) s).2 =
      if (pass s).1 = 0 then (pass s).2 else (repeatPass pass limit (pass s).2).2 := by
  rw [repeatPass]
  rcases pass s with ⟨changes, s'⟩
  by_cases h : changes = 0 <;> simp [h]

lemma repeatPass_keeps {I : σ → Prop} (h : ∀ s, I s → I (pass s).2) (limit : Nat) (hs : I s) :
    I (repeatPass pass limit s).2 := by
  induction limit generalizing s with
  | zero => exact hs
  | succ _ ih =>
    rw [repeatPass_succ]
    split
    · exact h s hs
    · exact ih (h s hs)

lemma repeatPass_of_quiet (hquiet : ∀ s, (pass s).1 = 0 → (pass s).2 = s) (h : (pass s).1 = 0)
    : (repeatPass pass limit s).2 = s := by
  cases limit with
  | zero => rfl
  | succ => rw [repeatPass_succ, if_pos h, hquiet s h]

/-- Passes that find nothing to do after two rounds end there. -/
lemma repeatPass_eq_twice (hquiet : ∀ s, (pass s).1 = 0 → (pass s).2 = s)
    (h : (pass (pass (pass s).2).2).1 = 0) (hlimit : 2 ≤ limit) :
    (repeatPass pass limit s).2 = (pass (pass s).2).2 := by
  obtain ⟨limit, rfl⟩ := Nat.exists_eq_add_of_le' hlimit
  rw [repeatPass_succ, repeatPass_succ]
  split
  · next h1 => rw [hquiet s h1, hquiet s h1]
  · split
    · rfl
    · exact repeatPass_of_quiet hquiet h

end Repeat

namespace ControlFlow

/-- A pass that counts no change leaves the body and the next label number as they are. -/
lemma pass_quiet (types : TypeTable) (scopes : ScopeTree) (body : Stmt × Nat)
    (h : (pass types scopes body).1 = 0) : (pass types scopes body).2 = body := by
  obtain ⟨hs, hst⟩ := (stmt_steady { types, scopes }).unchanged { nextLabel := body.2 } h
  exact Prod.ext hs (congrArg State.nextLabel hst)

/-! ## Distinct labels -/

/-- What a pass makes of a statement: the switches in it have their labels, and the cleanup statements
stay, with their bodies lowered. -/
structure Reworks (s s' : Stmt) : Prop where
  single : s'.hasSingleDefaults = true
  cleanups : s'.cleanups.length = s.cleanups.length

lemma reworks_exprs (h : ∀ s ∈ ss, ∃ tok e, s = .expr tok e) :
    allSingleDefaults ss = true ∧ ss.flatMap cleanups = [] := by
  induction ss with
  | nil => exact ⟨rfl, rfl⟩
  | cons s _ ih =>
    obtain ⟨tok, e, rfl⟩ := h s (.head _)
    exact ih fun s hs => h s (.tail _ hs)

lemma stmts_reworks (h : ∀ s ∈ ss, ∀ c st, Reworks s (stmt c s st).1) (c : Context) (st : State)
    (tok : Token) : Reworks (.seq tok ss) (.seq tok (stmts c ss st).1) := by
  induction ss generalizing st with
  | nil => exact ⟨rfl, rfl⟩
  | cons s _ ih =>
    obtain ⟨hsingle, hcleans⟩ := h s (.head _) c st
    obtain ⟨hsingle', hcleans'⟩ := ih (fun s hs => h s (.tail _ hs)) (stmt c s st).2
    rw [hasSingleDefaults] at hsingle'
    rw [cleanups_seq, cleanups_seq] at hcleans'
    constructor
    · simp [stmts_cons, hasSingleDefaults, allSingleDefaults, hsingle, hsingle']
    · simp [stmts_cons, hcleans, hcleans']

lemma Settles.reworks (h : Settles st s r) (hs : Reworks s s) (hnone : s.cleanups = []) :
    Reworks s r.1 := by
  cases h with
  | stays => exact hs
  | jump | mark => exact ⟨rfl, by rw [hnone]; rfl⟩

lemma stmt_reworks (s : Stmt) (c : Context) (st : State) : Reworks s (stmt c s st).1 := by
  induction s using induction generalizing c st with
  | expr _ e =>
    cases h : declaredElements? c.types e with
    | none =>
      rw [stmt_expr_none c st h]
      exact ⟨rfl, rfl⟩
    | some declared =>
      obtain ⟨ss, k, hss, hrun⟩ := expandDeclaration_makesExprs c e.note declared.1 declared.2
      obtain ⟨hsingle, hcleans⟩ := reworks_exprs hss
      rw [stmt_expr_some c st h, hrun]
      exact ⟨hsingle, by rw [cleanups_seq, hcleans]; rfl⟩
  | block tok _ _ ih =>
    obtain ⟨hsingle, hcleans⟩ := stmts_reworks ih c st tok
    exact ⟨hsingle, hcleans⟩
  | seq tok _ ih => exact stmts_reworks ih c st tok
  | branch _ _ _ no ihYes ihNo =>
    cases no with
    | none => exact ⟨(ihYes c _).single, (ihYes c _).cleanups⟩
    | some no =>
      have hno := ihNo no rfl
      constructor <;> simp [stmt_branch_some, hasSingleDefaults, (ihYes _ _).single,
        (ihYes _ _).cleanups, (hno _ _).single, (hno _ _).cleanups]
  | whileLoop _ cond _ ih =>
    simp only [stmt_whileLoop, loopStatements_eq, exits]
    split <;> constructor <;>
      simp [exitUnless, hasSingleDefaults, allSingleDefaults, (ih _ _).single, (ih _ _).cleanups]
  | doLoop _ _ _ ih =>
    constructor <;> simp [stmt_doLoop, doAsWhile, exitUnless, hasSingleDefaults, allSingleDefaults,
      (ih _ _).single, (ih _ _).cleanups]
  | forLoop tok first _ step _ ihFirst ih =>
    have hstep (step : Option Expr) : allSingleDefaults (step.toList.map (.expr tok)) = true ∧
        (step.toList.map (.expr tok)).flatMap cleanups = [] := by
      cases step <;> exact ⟨rfl, rfl⟩
    cases first with
    | none =>
      constructor <;> simp [stmt_forLoop_none, forAsWhile, hasSingleDefaults, allSingleDefaults,
        hstep, (ih _ _).single, (ih _ _).cleanups]
    | some first =>
      have hfirst := ihFirst first rfl
      constructor <;> simp [stmt_forLoop_some, forAsWhile, hasSingleDefaults, allSingleDefaults,
        hstep, (ih _ _).single, (ih _ _).cleanups, (hfirst _ _).single, (hfirst _ _).cleanups]
  | breakLoop | continueLoop | caseLabel | defaultLabel =>
    exact Settles.reworks (stmt_settles c st trivial) ⟨rfl, rfl⟩ rfl
  | switch _ value body labels ih =>
    cases labels with
    | some => exact ⟨(ih _ _).single, (ih _ _).cleanups⟩
    | none =>
      have hsome := (stmt_advances body (c.switchBody (madeLabel (expr value st).2.nextLabel "tail"))
        (expr value st).2.openSwitch).isSome_eq
      obtain ⟨pending, hpend⟩ := Option.isSome_iff_exists.1 (hsome.trans rfl)
      simp only [stmt_switch_none, hpend, Option.map_some]
      exact ⟨(ih _ _).single, (ih _ _).cleanups⟩
  | cleanup _ _ ih => exact ⟨(ih c st).single, congrArg (· + 1) (ih c st).cleanups⟩
  | _ => exact ⟨rfl, rfl⟩

/-- A body with distinct labels, none of which is made of a number that is still to come. -/
structure HasDistinctLabels (body : Stmt × Nat) : Prop where
  nodup : body.1.labels.Nodup
  below : ∀ id suffix, madeLabel id suffix ∈ body.1.labels → id < body.2
  single : body.1.hasSingleDefaults = true

/-- A pass adds labels that are made of the numbers that it takes. -/
lemma HasDistinctLabels.exists_fresh (h : HasDistinctLabels body) (types : TypeTable)
    (scopes : ScopeTree) : ∃ fresh : List String,
      (ControlFlow.pass types scopes body).2.1.labels.Perm (body.1.labels ++ fresh) ∧
      fresh.Nodup ∧ body.2 ≤ (ControlFlow.pass types scopes body).2.2 ∧
      ∀ label ∈ fresh, ∃ id suffix, body.2 ≤ id ∧ id < (ControlFlow.pass types scopes body).2.2 ∧
        label = madeLabel id suffix := by
  have hready : Ready body.1.defaults { nextLabel := body.2 } := fun pending hp => by cases hp
  obtain ⟨fresh, hsup⟩ := supplied body.1 { types, scopes } { nextLabel := body.2 } h.single hready
  have hnone : (stmt { types, scopes } body.1 { nextLabel := body.2 }).2.switch = none := by
    have := (stmt_advances body.1 { types, scopes } { nextLabel := body.2 }).frame_eq
    simpa using this
  -- Without a switch around it, the labels of the body are the old ones and the fresh ones.
  have hperm : (stmt { types, scopes } body.1 { nextLabel := body.2 }).1.labels.Perm
      (body.1.labels ++ fresh) := by
    simpa [State.made, hnone] using hsup.perm
  exact ⟨fresh, hperm, hsup.nodup, hsup.nextLabel_le, hsup.between⟩

lemma HasDistinctLabels.pass (h : HasDistinctLabels body) (types : TypeTable) (scopes : ScopeTree) :
    HasDistinctLabels (ControlFlow.pass types scopes body).2 := by
  obtain ⟨fresh, hperm, hnodup, hle, hbetween⟩ := h.exists_fresh types scopes
  refine ⟨?_, fun id suffix hmem => ?_, (stmt_reworks _ _ _).single⟩
  · rw [hperm.nodup_iff, List.nodup_append]
    refine ⟨h.nodup, hnodup, ?_⟩
    rintro label hl _ hf rfl
    obtain ⟨id, suffix, hid, -, rfl⟩ := hbetween label hf
    exact absurd (h.below id suffix hl) (Nat.not_lt.2 hid)
  · rw [hperm.mem_iff, List.mem_append] at hmem
    obtain hl | hf := hmem
    · exact (h.below id suffix hl).trans_le hle
    · obtain ⟨id', suffix', -, hlt, heq⟩ := hbetween _ hf
      rwa [(madeLabel_inj.1 heq).1]

end ControlFlow

end CompilerCore
