import CompilerCore.Proofs.Lowering.Form

/-!
# Lowered statements behave as before

Each step of a statement with loops and switches is matched by one or more steps of the labels and
jumps that it is lowered to.  `Stack` relates what remains to be done on both sides.  A loop that has
come to the end of its body stands at different places of the lowered code, according to its kind and
to whether it came there by `continue`; `AgainAt` lists them.
-/

namespace CompilerCore

open ControlFlow Structured StateTransition Goto

variable {σ ε : Type} {M : Meaning σ ε} {P : Stmt}

/-! ## Runs of lowered code -/

/-- Where a run goes on after a test: at one of two places, or nowhere. -/
def decided (result : Except ε (Bool × σ)) (yes no : List Stmt) : Moment Stmt σ ε :=
  match result with
  | .ok (true, s) => .running yes s
  | .ok (false, s) => .running no s
  | .error e => .done (.failed e)

lemma step_label (token : Token) (name : String) (rest : List Stmt) (s : σ) :
    step M P (.running (.label token name :: rest) s) = some (.running rest s) := rfl

lemma step_seq (token : Token) (inner rest : List Stmt) (s : σ) :
    step M P (.running (.seq token inner :: rest) s) = some (.running (inner ++ rest) s) := rfl

variable {label tail : String} {rest : List Stmt} {token : Token} {T : Targets} {tasks : List Task}

lemma step_goto (h : Goto.seek label P [] = some found) (token : Token) (rest : List Stmt) (s : σ) :
    Goto.step M P (.running (.goto token label :: rest) s) = some (.running found s) := by
  simp [Goto.step, Goto.stmt, Goto.jump, h]

lemma test_negation (hM : M.Lawful) (cond : Expr) (s : σ) : M.test (some (negation cond)) s =
      (M.test (some cond) s).map fun (holds, s) => (!holds, s) := by
  simp only [Meaning.test, negation, hM.not]
  cases M.eval cond s with
  | error => rfl
  | ok result =>
    obtain ⟨n, s'⟩ := result
    by_cases hn : n = 0
    · subst hn
      rfl
    · simp [Except.map, hn]

lemma reaches_exitUnless (hM : M.Lawful)
    (htail : seek tail P [] = some (.label token tail :: rest)) (cond : Expr)
    (more : List Stmt) (s : σ) :
    Reaches₁ (step M P)
      (.running (exitUnless token cond (.goto token tail) ++ more) s)
      (decided (M.test (some cond) s) more rest) := by
  have hstep : step M P
      (.running (exitUnless token cond (.goto token tail) ++ more) s) =
      afterEval ((M.test (some cond) s).map fun (holds, s) => (!holds, s)) fun holds s =>
        some (.running ((if holds then [.goto token tail] else []) ++ more) s) := by
    rw [← test_negation hM]
    rfl
  rcases htest : M.test (some cond) s with e | ⟨_ | _, s'⟩
  · refine .single ?_
    rw [Option.mem_def, hstep, htest]
    rfl
  · refine .head (b := .running (.goto token tail :: more) s') ?_ ?_
    · rw [hstep, htest]
      rfl
    · exact .head (step_goto htail _ _ _)
        (.single (step_label _ _ _ _))
  · refine .single ?_
    rw [Option.mem_def, hstep, htest]
    rfl

lemma eq_literal_of_isAlwaysTrue {cond : Expr} (h : isAlwaysTrue cond = true) :
    ∃ note value n, cond = .literal note value ∧ value.integer? = some n ∧ n ≠ 0 := by
  cases cond with
  | literal note value =>
    cases hv : value.integer? with
    | none => simp [isAlwaysTrue, Expr.integer?, Expr.literal?, hv] at h
    | some n =>
      refine ⟨note, value, n, rfl, hv, ?_⟩
      simpa [isAlwaysTrue, Expr.integer?, Expr.literal?, hv] using h
  | _ => simp [isAlwaysTrue, Expr.integer?, Expr.literal?] at h

lemma test_of_isAlwaysTrue (hM : M.Lawful) {cond : Expr}
    (h : isAlwaysTrue cond = true) : M.test (some cond) s = .ok (true, s) := by
  obtain ⟨note, value, n, rfl, hv, hn⟩ := eq_literal_of_isAlwaysTrue h
  simp [Meaning.test, hM.literal note value n s hv, Except.map, hn]

lemma reaches_exits (hM : M.Lawful)
    (htail : seek tail P [] = some (.label token tail :: rest)) {cond : Expr}
    {more : List Stmt} {s : σ} :
    Reaches (step M P) (.running (exits token cond tail ++ more) s)
      (decided (M.test (some cond) s) more rest) := by
  unfold exits
  split
  · next h =>
    rw [test_of_isAlwaysTrue hM h]
    exact .refl
  · exact (reaches_exitUnless hM htail cond more s).to_reflTransGen

lemma reaches_exits_option (hM : M.Lawful)
    (htail : seek tail P [] = some (.label token tail :: rest)) (cond : Option Expr)
    (more : List Stmt) (s : σ) : Reaches (step M P)
      (.running (exits token (cond.getD (always token)) tail ++ more) s)
      (decided (M.test cond s) more rest) := by
  cases cond with
  | none => exact .refl
  | some cond => exact reaches_exits hM htail

/-! ## What remains on both sides -/

/-- The places of lowered code that stand for the end of a loop's body.  `rest` follows the loop. -/
inductive AgainAt (P : Stmt) :
    Targets → Option Expr → Option Expr → Stmt → List Stmt → List Stmt → Prop
  | whileLoop {token : Token} {condition : Expr} {body body' : Stmt} {head tail : String}
      {rest : List Stmt} (part : Lowered ⟨some tail, some head⟩ body body')
      (here : Goto.Located P body' (.goto token head :: .label token tail :: rest))
      (atHead : Goto.seek head P [] = some (.label token head ::
        (exits token condition tail ++ body' :: .goto token head :: .label token tail :: rest)))
      (atTail : Goto.seek tail P [] = some (.label token tail :: rest)) :
      AgainAt P ⟨some tail, some head⟩ none (some condition) body
        (.label token head ::
          (exits token condition tail ++ body' :: .goto token head :: .label token tail :: rest))
        rest
  | doLoop {token : Token} {condition : Expr} {body body' : Stmt} {head tail next : String}
      {turn rest : List Stmt} (part : Lowered ⟨some tail, some next⟩ body body')
      (turn_eq : turn = .label token next ::
        (exitUnless token condition (.goto token tail) ++
          .goto token head :: .label token tail :: rest))
      (here : Goto.Located P body' turn)
      (atHead : Goto.seek head P [] = some (.label token head ::
        .seq token ([body', .label token next] ++ exitUnless token condition (.goto token tail)) ::
          .goto token head :: .label token tail :: rest))
      (atNext : Goto.seek next P [] = some turn)
      (atTail : Goto.seek tail P [] = some (.label token tail :: rest)) :
      AgainAt P ⟨some tail, some next⟩ none (some condition) body turn rest
  | forLoop {token : Token} {condition step : Option Expr} {body body' : Stmt}
      {head tail next : String} {turn rest : List Stmt}
      (part : Lowered ⟨some tail, some next⟩ body body')
      (turn_eq : turn = .label token next ::
        (step.toList.map (.expr token) ++ .goto token head :: .label token tail :: rest))
      (here : Goto.Located P body' turn)
      (atHead : Goto.seek head P [] = some (.label token head ::
        (exits token (condition.getD (always token)) tail ++
          .seq token ([body', .label token next] ++ step.toList.map (.expr token)) ::
            .goto token head :: .label token tail :: rest)))
      (atNext : Goto.seek next P [] = some turn)
      (atTail : Goto.seek tail P [] = some (.label token tail :: rest)) :
      AgainAt P ⟨some tail, some next⟩ step condition body turn rest
  /-- A jump to such a place. -/
  | goto {T : Targets} {step condition : Option Expr} {body : Stmt} {place rest more : List Stmt}
      {token : Token} {label : String} (found : Goto.seek label P [] = some place)
      (at_place : AgainAt P T step condition body place rest) :
      AgainAt P T step condition body (.goto token label :: more) rest

/-- What remains of a structured run and of the run of the lowered body `P`, at a place where `break`
and `continue` go to the given targets. -/
inductive Stack (P : Stmt) : Targets → List Task → List Stmt → Prop
  | nil : Stack P ⟨none, none⟩ [] []
  | run {T : Targets} {s s' : Stmt} {tasks : List Task} {rest : List Stmt} (part : Lowered T s s')
      (here : Goto.Located P s' rest) (below : Stack P T tasks rest) :
      Stack P T (.run s :: tasks) (s' :: rest)
  | again {T T' : Targets} {step condition : Option Expr} {body : Stmt} {tasks : List Task}
      {place rest : List Stmt} (at_place : AgainAt P T' step condition body place rest)
      (below : Stack P T tasks rest) : Stack P T' (.again step condition body :: tasks) place
  | leave {T : Targets} {token : Token} {tail : String} {tasks : List Task} {rest : List Stmt}
      (atTail : Goto.seek tail P [] = some (.label token tail :: rest))
      (below : Stack P T tasks rest) :
      Stack P ⟨some tail, T.continueTo⟩ (.leave :: tasks) (.label token tail :: rest)

lemma AgainAt.atBreak {step cond : Option Expr} (h : AgainAt P T step cond body place rest)
    (hl : T.breakTo = some label) :
    ∃ token, seek label P [] = some (.label token label :: rest) := by
  induction h with
  | whileLoop _ _ _ atTail | doLoop _ _ _ _ _ atTail | forLoop _ _ _ _ _ atTail =>
    cases hl
    exact ⟨_, atTail⟩
  | goto _ _ ih => exact ih hl

lemma AgainAt.atContinue {step cond : Option Expr} (h : AgainAt P T step cond body place rest)
    (hl : T.continueTo = some label) :
    ∃ place', seek label P [] = some place' ∧ AgainAt P T step cond body place' rest := by
  induction h with
  | whileLoop part here atHead atTail =>
    cases hl
    exact ⟨_, atHead, .whileLoop part here atHead atTail⟩
  | doLoop part turn_eq here atHead atNext atTail =>
    cases hl
    exact ⟨_, atNext, .doLoop part turn_eq here atHead atNext atTail⟩
  | forLoop part turn_eq here atHead atNext atTail =>
    cases hl
    exact ⟨_, atNext, .forLoop part turn_eq here atHead atNext atTail⟩
  | goto _ _ ih => exact ih hl

lemma Stack.atBreak (h : Stack P T tasks rest) (hl : T.breakTo = some label) :
    ∃ tasks' T' token rest', breakTo tasks = some tasks' ∧
      seek label P [] = some (.label token label :: rest') ∧ Stack P T' tasks' rest' := by
  induction h with
  | nil => cases hl
  | run _ _ _ ih => exact ih hl
  | again at_place below =>
    obtain ⟨token, found⟩ := at_place.atBreak hl
    exact ⟨_, _, token, _, rfl, found, below⟩
  | leave atTail below =>
    cases hl
    exact ⟨_, _, _, _, rfl, atTail, below⟩

lemma Stack.atContinue (h : Stack P T tasks rest) (hl : T.continueTo = some label) :
    ∃ tasks' T' rest', continueTo tasks = some tasks' ∧
      seek label P [] = some rest' ∧ Stack P T' tasks' rest' := by
  induction h with
  | nil => cases hl
  | run _ _ _ ih | leave _ _ ih => exact ih hl
  | again at_place below =>
    obtain ⟨place', found, at_place'⟩ := at_place.atContinue hl
    exact ⟨_, _, place', rfl, found, .again at_place' below⟩

lemma Stack.push (parts : LoweredAll T ss ss') (here : Goto.LocatedIn P ss' rest)
    (below : Stack P T tasks rest) : Stack P T (ss.map .run ++ tasks) (ss' ++ rest) := by
  induction ss generalizing ss' with
  | nil =>
    cases parts
    exact below
  | cons _ _ ih =>
    cases parts with
    | cons part parts => exact .run part here.head (ih parts here.tail)

end CompilerCore
