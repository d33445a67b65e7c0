import CompilerCore.Proofs.Lowering.Simulation

/-!
# Steps of lowered statements

Each step of a structured run is matched by steps of the lowered body, so both have the same
outcomes.
-/

namespace CompilerCore

open ControlFlow Structured StateTransition Goto Option

variable {σ ε : Type} {M : Meaning σ ε} {P : Stmt}

/-- Moments of a structured run and of the run of the lowered body `P` that correspond. -/
inductive Sim (P : Stmt) : Moment Task σ ε → Moment Stmt σ ε → Prop
  | running {T : Targets} {tasks : List Task} {rest : List Stmt} {s : σ}
      (stack : Stack P T tasks rest) : Sim P (.running tasks s) (.running rest s)
  | done (outcome : Outcome σ ε) : Sim P (.done outcome) (.done outcome)

/-- A structured run takes a step, and the lowered one follows it. -/
def Follows (M : Meaning σ ε) (P : Stmt) (a : Moment Task σ ε) (a' : Moment Stmt σ ε) : Prop :=
  ∃ b b', Structured.step M a = some b ∧ Sim P b b' ∧ Reaches₁ (Goto.step M P) a' b'

variable {a : Moment Task σ ε} {a' : Moment Stmt σ ε} {T : Targets} {body : Stmt}
  {cond step : Option Expr} {tasks : List Task} {s : σ}

lemma Follows.single (h : Structured.step M a = some b) (h' : Goto.step M P a' = some b')
    (sim : Sim P b b') : Follows M P a a' :=
  ⟨b, b', h, sim, .single h'⟩

lemma Follows.afterEval (h : Structured.step M a = CompilerCore.afterEval result next)
    (h' : Goto.step M P a' = CompilerCore.afterEval result next')
    (hnext : ∀ value s, ∃ b c b', next value s = some b ∧ next' value s = some c ∧
      Reaches (Goto.step M P) c b' ∧ Sim P b b') : Follows M P a a' := by
  rcases result with e | ⟨value, s⟩
  · exact .single h h' (.done _)
  · obtain ⟨b, c, b', hb, hc, hreach, sim⟩ := hnext value s
    exact ⟨b, b', h.trans hb, sim, .head' (h'.trans hc) hreach⟩

variable {body' : Stmt} {rest : List Stmt} {token : Token}

/-- A structured loop tests its condition, and the lowered one comes to its body or to its end. -/
lemma Follows.iterate (h : Structured.step M a = Structured.iterate step cond body tasks result)
    (h' : Reaches₁ (Goto.step M P) a' (decided result (body' :: place) rest))
    (part : Lowered T' body body') (here : Goto.Located P body' place)
    (at_place : AgainAt P T' step cond body place rest) (below : Stack P T tasks rest) :
    Follows M P a a' := by
  rcases result with e | ⟨_ | _, s⟩
  · exact ⟨_, _, h, .done _, h'⟩
  · exact ⟨_, _, h, .running below, h'⟩
  · exact ⟨_, _, h, .running (.run part here (.again at_place below)), h'⟩

/-! ## Loops -/

section Loops

variable {token : Token} {head tail next : String} {rest : List Stmt} {body' : Stmt}

lemma located_loop {cond : Expr}
    (here : Goto.Located P (.seq token (loopStatements token cond body' head tail)) rest) :
    Goto.Located P body' (.goto token head :: .label token tail :: rest) ∧
    seek head P [] = some (.label token head ::
      (exits token cond tail ++ body' :: .goto token head :: .label token tail :: rest)) ∧
    seek tail P [] = some (.label token tail :: rest) := by
  have h := here.inSeq
  rw [loopStatements_eq] at h
  have hbody := h.tail.append_right
  refine ⟨hbody.head, ?_, hbody.tail.tail.head.label⟩
  have := h.head.label
  simpa using this

lemma located_turn (here : Goto.Located P (.seq token ([body', .label token next] ++ more)) place) :
    Goto.Located P body' (.label token next :: (more ++ place)) ∧
    seek next P [] = some (.label token next :: (more ++ place)) :=
  ⟨here.inSeq.head, here.inSeq.tail.head.label⟩

lemma step_loop {cond : Expr} {s : σ} : Goto.step M P
        (.running (.seq token (loopStatements token cond body' head tail) :: rest) s) =
      some (.running (.label token head :: (exits token cond tail ++
        body' :: .goto token head :: .label token tail :: rest)) s) := by
  rw [step_seq, loopStatements_eq]
  simp

/-- From its head, a loop comes to its body or to its end. -/
lemma reaches_loop (hM : M.Lawful) (cond : Option Expr)
    (atTail : Goto.seek tail P [] = some (.label token tail :: rest)) (more : List Stmt) (s : σ) :
    Reaches₁ (Goto.step M P)
      (.running (.label token head :: (exits token (cond.getD (always token)) tail ++ more)) s)
      (decided (M.test cond s) more rest) :=
  .head' (step_label _ _ _ _) (reaches_exits_option hM atTail cond more s)

lemma reaches_step (token : Token) (step : Option Expr) (more : List Stmt) (s : σ) :
    Reaches (Goto.step M P) (.running (step.toList.map (.expr token) ++ more) s)
      (match M.perform step s with
        | .ok s => .running more s
        | .error e => .done (.failed e)) := by
  cases step with
  | none => exact .refl
  | some e =>
    refine .single ?_
    rw [Meaning.perform]
    show CompilerCore.afterEval (M.eval e s) _ = _
    rcases M.eval e s with error | ⟨value, s'⟩ <;> rfl

lemma reaches_decided {a : Moment Stmt σ ε} (h : Reaches₁ (Goto.step M P) a (decided result yes no))
    (hyes : ∀ s, Reaches (Goto.step M P) (.running yes s) (.running yes' s)) :
    Reaches₁ (Goto.step M P) a (decided result yes' no) := by
  rcases result with e | ⟨_ | _, s⟩
  · exact h
  · exact h
  · exact h.trans_left (hyes s)

end Loops

/-- At the end of its body, a loop makes its step and comes to its body again or to its end. -/
lemma AgainAt.turn (hM : M.Lawful) (h : AgainAt P T step cond body place rest) (s : σ) :
    ∃ body' place', Lowered T body body' ∧ Goto.Located P body' place' ∧
      AgainAt P T step cond body place' rest ∧
      Reaches₁ (Goto.step M P) (.running place s)
        (decided ((M.perform step s).bind (M.test cond)) (body' :: place') rest) := by
  induction h with
  | whileLoop part here atHead atTail =>
    exact ⟨_, _, part, here, .goto atHead (.whileLoop part here atHead atTail),
      reaches_loop hM (some _) atTail _ s⟩
  | @doLoop token cond body body' head tail next turn rest part turn_eq here atHead atNext
      atTail =>
    refine ⟨_, _, part, here, .doLoop part turn_eq here atHead atNext atTail, ?_⟩
    have hexit := reaches_exitUnless (M := M) hM atTail cond
      (.goto token head :: .label token tail :: rest) s
    -- From the end of the body the jump leads to the head, which has no exit.
    have hback (s : σ) : Reaches (Goto.step M P)
        (.running (.goto token head :: .label token tail :: rest) s)
        (.running (body' :: turn) s) := by
      refine .head (step_goto atHead _ _ _)
        (.head (step_label _ _ _ _) (.single ?_))
      rw [mem_def, step_seq, turn_eq]
      simp
    rw [turn_eq]
    exact .head (step_label _ _ _ _) (turn_eq ▸ reaches_decided hexit hback)
  | @forLoop token cond step body body' head tail next turn rest part turn_eq here atHead
      atNext atTail =>
    refine ⟨_, _, part, here, .forLoop part turn_eq here atHead atNext atTail, ?_⟩
    have hstep := reaches_step (M := M) (P := P) token step
      (.goto token head :: .label token tail :: rest) s
    have hbody (s : σ) : Reaches (Goto.step M P)
        (.running (.seq token ([body', .label token next] ++ step.toList.map (.expr token)) ::
          .goto token head :: .label token tail :: rest) s) (.running (body' :: turn) s) := by
      refine .single ?_
      rw [mem_def, step_seq, turn_eq]
      simp
    rcases hp : M.perform step s with e | s'
    · rw [hp] at hstep
      rw [turn_eq]
      exact .head' (step_label _ _ _ _) hstep
    · rw [hp] at hstep
      have hturn : Reaches₁ (Goto.step M P) (.running turn s)
          (.running (.goto token head :: .label token tail :: rest) s') := by
        rw [turn_eq]
        exact .head' (step_label _ _ _ _) hstep
      have hloop : Reaches₁ (Goto.step M P)
          (.running (.goto token head :: .label token tail :: rest) s')
          (decided (M.test cond s') _ rest) :=
        .head (step_goto atHead _ _ _) (reaches_loop hM cond atTail _ s')
      exact hturn.trans (reaches_decided hloop hbody)
  | @goto _ _ _ _ _ _ _ _ _ found _ ih =>
    obtain ⟨body', place', part, here, at_place', hreach⟩ := ih
    exact ⟨body', place', part, here, at_place', .head (step_goto found _ _ _) hreach⟩

/-! ## Switches -/

/-- A label of a switch's body leads to what became of the statements that follow it. -/
def EntersAt (P : Stmt) (T : Targets) (rest : List Stmt) (name : String) (entered : List Stmt) :
    Prop :=
  ∃ token entered', LoweredAll T entered entered' ∧ Goto.LocatedIn P entered' rest ∧
    Goto.seek name P [] = some (.label token name :: (entered' ++ rest))

lemma afterCase_caseTable (parts : LoweredAll T ss ss') (here : Goto.LocatedIn P ss' rest)
    (accepts : Int64 → Bool) :
    match (caseTable ss ss').find? (accepts ·.2) with
    | some (name, _) => ∃ entered, afterCase accepts ss = some entered ∧
        EntersAt P T rest name entered
    | none => afterCase accepts ss = none := by
  induction ss generalizing ss' with
  | nil =>
    cases parts
    rfl
  | cons _ _ ih =>
    cases parts with
    | cons part parts =>
      have ih := ih parts here.tail
      cases part with
      | caseLabel token value =>
        cases hv : value.integer? with
        | none => simpa [caseTable, afterCase, hv] using ih
        | some n =>
          by_cases hn : accepts n = true
          · simp only [caseTable, hv, map_some, toList_some, List.singleton_append,
              List.find?_cons, hn, afterCase, any_some, if_true]
            exact ⟨_, rfl, token, _, parts, here.tail, here.head.label⟩
          · simpa [caseTable, afterCase, hv, hn] using ih
      | _ => exact ih

lemma afterDefault_defaultIn (parts : LoweredAll T ss ss') (here : Goto.LocatedIn P ss' rest) :
    match defaultIn ss ss' with
    | some name => ∃ entered, afterDefault ss = some entered ∧ EntersAt P T rest name entered
    | none => afterDefault ss = none := by
  induction ss generalizing ss' with
  | nil =>
    cases parts
    rfl
  | cons _ _ ih =>
    cases parts with
    | cons part parts =>
      have ih := ih parts here.tail
      cases part with
      | defaultLabel token => exact ⟨_, rfl, token, _, parts, here.tail, here.head.label⟩
      | _ => exact ih

lemma Holds.located (h : Holds body' ss') (here : Goto.Located P body' rest) :
    Goto.LocatedIn P ss' rest := by
  cases h with
  | block => exact here.inBlock
  | seq => exact here.inSeq
  | single => exact here.single

lemma enter_follows (holds : Holds body' ss')
    (parts : LoweredAll ⟨some labels.tail, T.continueTo⟩ (items body) ss')
    (cases_eq : labels.cases = caseTable (items body) ss')
    (default_eq : labels.default = defaultIn (items body) ss')
    (here : Goto.Located P (.switch token selector body' (some labels)) rest)
    (below : Stack P T tasks rest) {value : Int64} {s : σ} :
    ∃ c b', Goto.jump (ε := ε) P (Goto.target labels (M.constant selector · == value)) s = some c ∧
      Reaches (Goto.step M P) c b' ∧ Sim P (.running (enter M selector value body tasks) s) b' := by
  have hinner := holds.located here.inSwitch
  have hstack := Stack.leave here.switchTail below
  -- Both ways into the body end the same way.
  have hin {name : String} {entered : List Stmt}
      (h : EntersAt P ⟨some labels.tail, T.continueTo⟩ (.label token labels.tail :: rest) name
        entered) :
      ∃ c b', jump (ε := ε) P name s = some c ∧ Reaches (step M P) c b' ∧
        Sim P (.running (entered.map .run ++ .leave :: tasks) s) b' := by
    obtain ⟨token', entered', hparts, hloc, hseek⟩ := h
    refine ⟨.running (.label token' name :: (entered' ++ .label token labels.tail :: rest)) s, _,
      by simp [jump, hseek], .single (step_label _ _ _ _), ?_⟩
    exact .running (.push hparts hloc hstack)
  have hcase := afterCase_caseTable parts hinner (M.constant selector · == value)
  have hdef := afterDefault_defaultIn parts hinner
  rw [target, enter, cases_eq]
  cases hfind : (caseTable (items body) ss').find? (M.constant selector ·.2 == value) with
  | some =>
    rw [hfind] at hcase
    obtain ⟨entered, hentered, hat⟩ := hcase
    simp only [hentered]
    exact hin hat
  | none =>
    rw [hfind] at hcase
    cases hd : defaultIn (items body) ss' with
    | some =>
      rw [hd] at hdef
      obtain ⟨entered, hentered, hat⟩ := hdef
      simp only [hcase, hentered, default_eq, hd]
      exact hin hat
    | none =>
      rw [hd] at hdef
      simp only [hcase, hdef, default_eq, hd]
      refine ⟨.running (.label token labels.tail :: rest) s, .running rest s, ?_,
        .single (step_label _ _ _ _), .running below⟩
      simp [jump, here.switchTail]

/-! ## Every step -/

section

variable (hM : M.Lawful)
include hM

lemma for_follows (part : Lowered ⟨some tail, some next⟩ body body')
    (here : Goto.Located P (.seq token (forStatements token cond step body' head tail next)) rest)
    (below : Stack P T tasks rest) :
    Follows M P (.running (.run (.forLoop token none cond step body) :: tasks) s)
      (.running (.seq token (forStatements token cond step body' head tail next) :: rest) s) := by
  obtain ⟨hbody, atHead, atTail⟩ := located_loop here
  obtain ⟨hinner, atNext⟩ := located_turn hbody
  refine .iterate rfl ?_ part hinner (.forLoop part rfl hinner atHead atNext atTail) below
  have hloop : Reaches₁ (Goto.step M P)
      (.running (.seq token (forStatements token cond step body' head tail next) :: rest) s)
      (decided (M.test cond s) _ rest) :=
    .head step_loop (reaches_loop hM cond atTail _ s)
  refine reaches_decided hloop fun s => .single ?_
  rw [mem_def, step_seq]
  simp

lemma assertion_follows {cond : Expr} (below : Stack P T tasks rest) :
    Follows M P (.running (.run (.assertion token cond message) :: tasks) s)
      (.running (.branch token (negation cond) (abortCall token) none :: rest) s) := by
  have hstep : Goto.step M P
      (.running (.branch token (negation cond) (abortCall token) none :: rest) s) =
      afterEval (M.test (some (negation cond)) s) fun holds s =>
        some (.running ((if holds then [abortCall token] else []) ++ rest) s) := rfl
  rw [test_negation hM] at hstep
  have hsrc : Structured.step M
      (.running (.run (.assertion token cond message) :: tasks) s) =
      afterEval (M.test (some cond) s) fun holds s =>
        some (if holds then .running tasks s else .done (.failed M.abort)) := rfl
  rcases htest : M.test (some cond) s with e | ⟨_ | _, s'⟩
  · rw [htest] at hstep hsrc
    exact .single hsrc hstep (.done _)
  · rw [htest] at hstep hsrc
    refine ⟨_, _, hsrc, .done _, .head hstep (.single ?_)⟩
    show afterEval (M.eval _ s') _ = _
    rw [hM.abort]
    rfl
  · rw [htest] at hstep hsrc
    exact .single hsrc hstep (.running below)

/-- Each statement and what it is lowered to take corresponding steps. -/
lemma stmt_follows (part : Lowered T st st') (here : Goto.Located P st' rest)
    (below : Stack P T tasks rest) :
    Follows M P (.running (.run st :: tasks) s) (.running (st' :: rest) s) := by
  cases part with
  | expr =>
    exact .afterEval rfl rfl fun _ s => ⟨_, _, _, rfl, rfl, .refl, .running below⟩
  | block parts => exact .single rfl rfl (.running (.push parts here.inBlock below))
  | seq parts => exact .single rfl rfl (.running (.push parts here.inSeq below))
  | branch part =>
    refine .afterEval rfl rfl fun holds s => ⟨_, _, _, rfl, rfl, .refl, ?_⟩
    cases holds with
    | true => exact .running (.run part here.yes below)
    | false => exact .running below
  | branchElse part part' =>
    refine .afterEval rfl rfl fun holds s => ⟨_, _, _, rfl, rfl, .refl, ?_⟩
    cases holds with
    | true => exact .running (.run part here.yes below)
    | false => exact .running (.run part' here.no below)
  | whileLoop part =>
    obtain ⟨hbody, atHead, atTail⟩ := located_loop here
    refine .iterate rfl ?_ part hbody (.goto atHead (.whileLoop part hbody atHead atTail)) below
    exact .head step_loop (reaches_loop hM (some _) atTail _ s)
  | doLoop part =>
    obtain ⟨hbody, atHead, atTail⟩ := located_loop here
    obtain ⟨hinner, atNext⟩ := located_turn hbody
    refine ⟨_, _, rfl, .running (.run part hinner
      (.again (.doLoop part rfl hinner atHead atNext atTail) below)), ?_⟩
    refine .head step_loop (.head (step_label _ _ _ _)
      (.single ?_))
    rw [exits_always, List.nil_append, mem_def, step_seq]
    simp
  | forLoop part => exact for_follows hM part here below
  | forLoopAlone part =>
    obtain ⟨b, b', hb, sim, hreach⟩ := for_follows (s := s) hM part here.inSeq.head below
    exact ⟨b, b', hb, sim, .head (step_seq _ _ _ _) hreach⟩
  | forLoopFirst part part' =>
    have hseq := here.inSeq
    exact .single rfl rfl (.running (.run part hseq.head
      (.run (.forLoop part') hseq.tail.head below)))
  | breakLoop known =>
    obtain ⟨tasks', T', token', rest', htasks, hseek, hstack⟩ := below.atBreak known
    refine ⟨.running tasks' s, .running rest' s, ?_, .running hstack, ?_⟩
    · simp [Structured.step, Structured.stmt, htasks]
    · exact .head (step_goto hseek _ _ _)
        (.single (step_label _ _ _ _))
  | continueLoop known =>
    obtain ⟨tasks', T', rest', htasks, hseek, hstack⟩ := below.atContinue known
    refine .single (b := .running tasks' s) ?_ (step_goto hseek _ _ _) (.running hstack)
    simp [Structured.step, Structured.stmt, htasks]
  | ret _ value =>
    cases value with
    | none => exact .single rfl rfl (.done _)
    | some => exact .afterEval rfl rfl fun value s => ⟨_, _, _, rfl, rfl, .refl, .done _⟩
  | switch holds parts cases_eq default_eq =>
    refine .afterEval rfl rfl fun value s => ?_
    obtain ⟨c, b', hc, hreach, sim⟩ :=
      enter_follows (M := M) holds parts cases_eq default_eq here below
    exact ⟨_, c, b', rfl, hc, hreach, sim⟩
  | caseLabel => exact .single rfl rfl (.running below)
  | defaultLabel => exact .single rfl rfl (.running below)
  | assertion => exact assertion_follows hM below
  | empty => exact .single rfl rfl (.running below)

/-- Corresponding moments of both runs take corresponding steps. -/
lemma stack_follows (stack : Stack P T tasks rest) :
    Follows M P (.running tasks s) (.running rest s) := by
  cases stack with
  | nil => exact .single rfl rfl (.done _)
  | run part here below => exact stmt_follows hM part here below
  | again at_place below =>
    obtain ⟨body', place', part, here, at_place', hreach⟩ := at_place.turn hM s
    exact .iterate rfl hreach part here at_place' below
  | leave _ below => exact .single rfl (step_label _ _ _ _) (.running below)

lemma respects_lowered : Respects (Structured.step M) (Goto.step M P) (Sim P) := by
  intro a a' sim
  cases sim with
  | done => rfl
  | running stack =>
    obtain ⟨b, b', hb, sim, hreach⟩ := stack_follows hM stack
    rw [hb]
    exact ⟨b', sim, hreach⟩

/-- A body and what it is lowered to have the same outcomes, if the labels are distinct. -/
lemma ends_iff_of_lowered (h : Lowered ⟨none, none⟩ body P) (hn : P.labels.Nodup) (s : σ)
    (outcome : Outcome σ ε) : Structured.Ends M body s outcome ↔ Goto.Ends M P s outcome := by
  have hstart : Sim P (Structured.start (ε := ε) body s) (start P s) :=
    .running (.run h (Goto.Located.self hn) .nil)
  have hresp := respects_lowered (P := P) hM
  constructor
  · intro hends
    obtain ⟨b', sim, hb'⟩ := tr_eval hresp hstart hends
    cases sim
    exact hb'
  · intro hends
    obtain ⟨b, sim, hb⟩ := tr_eval_rev hresp hstart hends
    cases sim
    exact hb

end

end CompilerCore
