import CompilerCore.Proofs.Code.Flow

/-!
# Runs of code for statements

Every step of a run of a body is matched by steps of the code that covers what remains.  A step that
is matched by no step of the code leaves less to be done, so the code makes steps as long as the run
does.
-/

namespace CompilerCore

open CompilerCore.Code CompilerCore.Machine OperandType Stmt

lemma Meaning.integers_eval (he : e.Scalar t vars p) (σ : SymbolId → Int) :
    (Meaning.integers t).eval e σ = (e.evaluate t σ).map fun n => (Int64.ofInt n, σ) := by
  cases he <;> rfl

lemma Stmt.nodesOfList_append : nodesOfList (a ++ b) = nodesOfList a ++ nodesOfList b := by
  induction a with
  | nil => rfl
  | cons _ _ ih => simp [nodesOfList, ih]

namespace Code.Gen

variable {code : Array Instruction} {dF : Draft} {vars : SymbolId → Option Primitive}
  {d d' : Draft} {r : Register} {p : Primitive} {value : (SymbolId → Int) → Except Fault Int}
  {σ : SymbolId → Int} {ρ ρ' : Registers}

/-! ## Expressions in a run -/

lemma Delivers.evaluates (h : Delivers code dF vars d d' r hand type value) (hd : d.Sound)
    (hleads : d'.Leads dF) (hm : Matches vars dF σ ρ) :
    (∃ n ρ', value σ = .ok n ∧ Local.Runs code (d.instructions.size, ρ) (d'.instructions.size, ρ') ∧
      type.read (ρ' r.index) = n ∧ Matches vars dF σ ρ') ∨
    ∃ fault there, value σ = .error fault ∧ Local.Runs code (d.instructions.size, ρ) there ∧
      Local.Faults code there fault := by
  refine (h.yields r d' .kept hleads σ ρ hm.agrees).cases.imp_left ?_
  rintro ⟨n, ρ', hn, hruns, hread, hsame⟩
  exact ⟨n, ρ', hn, hruns, hread, hm.of_same hd h.leads hleads h.storage fun k hk =>
    hsame k (by simpa [Touched] using hk)⟩

/-! ## Steps of a run -/

/-- The word that a method gives back. -/
def returned (dF : Draft) (ρ : Registers) : UInt64 :=
  match dF.returnRegister with
  | some q => ρ q.index
  | none => 0

/-- How a call ends, from a place in its code on, when the run of its body has an outcome. -/
inductive Halts (code : Array Instruction) (dF : Draft) (here : Nat × Registers) :
    Outcome (SymbolId → Int) Fault → Prop where
  | returned {value : Option Int64} {σ : SymbolId → Int} {pc : Nat} {ρ : Registers} :
    dF.labels.find? leaveLabel = some pc → Local.Runs code here (pc, ρ) →
    extend (returned dF ρ) dF.returnType = (value.getD 0).toUInt64 →
    Halts code dF here (.returned value σ)
  | failed {fault : Fault} {there : Nat × Registers} :
    Local.Runs code here there → Local.Faults code there fault → Halts code dF here (.failed fault)

lemma Halts.of_runs (hruns : Local.Runs code here there) (h : Halts code dF there outcome) :
    Halts code dF here outcome := by
  cases h with
  | returned hleave h hvalue => exact .returned hleave (hruns.trans h) hvalue
  | failed h hfaults => exact .failed (hruns.trans h) hfaults

/-- Where the code is when a run that was at the given statements has come to a moment.  The code has
made a step unless fewer statements remain. -/
inductive Follows (code : Array Instruction) (dF : Draft) (c : Env)
    (vars : SymbolId → Option Primitive) (result : TypeId) (labels : String → Prop)
    (before : List Stmt) (here : Nat × Registers) :
    Moment Stmt (SymbolId → Int) Fault → Prop where
  | running {rest : List Stmt} {σ : SymbolId → Int} {pc : Nat} {ρ : Registers} :
    Relation.TransGen (Local.Step code) here (pc, ρ) ∨ Local.Runs code here (pc, ρ) ∧
      (nodesOfList rest).length < (nodesOfList before).length →
    Covers code dF c vars result labels rest pc → Matches vars dF σ ρ →
    Follows code dF c vars result labels before here (.running rest σ)
  | done {outcome : Outcome (SymbolId → Int) Fault} :
    Halts code dF here outcome → Follows code dF c vars result labels before here (.done outcome)

section

variable {c : Env} {result : TypeId} {labels : String → Prop} {rest before : List Stmt} {pc : Nat}
  {here there : Nat × Registers} {moment : Moment Stmt (SymbolId → Int) Fault}

lemma Follows.of_runs (hruns : Local.Runs code here there)
    (h : Follows code dF c vars result labels before there moment) :
    Follows code dF c vars result labels before here moment := by
  cases h with
  | running hmoves hcovers hm =>
    refine .running ?_ hcovers hm
    exact hmoves.imp (.trans_right hruns) fun ⟨h, hlt⟩ => ⟨hruns.trans h, hlt⟩
  | done h => exact .done (h.of_runs hruns)

lemma Covers.leaves (h : Covers code dF c vars result labels [] pc) :
    ∃ last, dF.labels.find? leaveLabel = some last ∧ ∀ ρ, Local.Runs code (pc, ρ) (last, ρ) := by
  generalize hrest : ([] : List Stmt) = rest at h
  induction h with
  | nil hleave => exact ⟨_, hleave, fun _ => .refl⟩
  | jump hstep _ ih =>
    obtain ⟨last, hleave, hruns⟩ := ih hrest
    exact ⟨last, hleave, fun ρ => .head (hstep ρ) (hruns ρ)⟩
  | cons => cases hrest

/-- Until a value is returned, the call would return zero. -/
lemma Matches.returned_eq (h : Matches vars dF σ ρ) : returned dF ρ = 0 := by
  unfold returned
  split
  · next q hq => exact h.result q hq
  · rfl

/-- The code of an assignment changes the variable, or runs to the fault of the evaluation. -/
lemma Fills.follows (h : Fills code dF vars d d' r (.ofPrimitive p) value) (hd : d.Sound)
    (hleads : d'.Leads dF) (hplaces : dF.Places vars) (hx : vars x = some p)
    (hr : d.storage.lookup x = some (.register r)) (hm : Matches vars dF σ ρ)
    (hrest : Covers code dF c vars result labels rest d'.instructions.size)
    (hless : (nodesOfList rest).length < (nodesOfList before).length) :
    ∃ moment, afterEval ((value σ).map fun n => (Int64.ofInt n, Function.update σ x n))
        (fun _ s => some (.running rest s)) = some moment ∧
      Follows code dF c vars result labels before (d.instructions.size, ρ) moment := by
  obtain ⟨n, ρ', hn, hruns, hread, hsame⟩ | ⟨fault, there, hfault, hruns, hfaults⟩ :=
    (h.yields hleads σ ρ hm.agrees).cases
  · rw [hn]
    exact ⟨_, rfl, .running (.inr ⟨hruns, hless⟩) hrest (hm.update hplaces hd h.leads hleads h.storage
      hx ((h.leads.trans hleads).storage x _ hr) hread hsame)⟩
  · rw [hfault]
    exact ⟨_, rfl, .done (.failed hruns hfaults)⟩

lemma branch_follows {cond : Expr} (hcond : cond.Scalar c.types vars p) (hd : d.Ready vars)
    (hvalue : Delivers code dF vars d d1 test (cond.handed? c.types) (.ofPrimitive p)
        (cond.evaluate c.types))
    (hleads : d1.Leads dF)
    (hstep : ∀ ρ, Local.Step code (d1.instructions.size, ρ)
      (if (ofPrimitive p).read (ρ test.index) = 0 then noAt else yesAt, ρ))
    (hyes : Covers code dF c vars result labels (yes :: rest) yesAt)
    (hno : Covers code dF c vars result labels (no.toList ++ rest) noAt) (hm : Matches vars dF σ ρ)
    (body : Stmt) :
    ∃ moment, Goto.stmt (Meaning.integers c.types) body rest σ (.branch tok cond yes no) =
        some moment ∧
      Follows code dF c vars result labels (.branch tok cond yes no :: rest)
        (d.instructions.size, ρ) moment := by
  have hint := isInteger_ofPrimitive hcond.isInteger
  simp only [Goto.stmt, Meaning.test, Meaning.integers_eval hcond]
  obtain ⟨n, ρ', hn, hruns, hread, hm'⟩ | ⟨fault, there, hfault, hruns, hfaults⟩ :=
    hvalue.evaluates hd.sound hleads hm
  · rw [hn]
    refine ⟨_, rfl, ?_⟩
    have hzero : Int64.ofInt n = 0 ↔ n = 0 := by
      rw [← hread]
      exact ofInt_read_eq_zero hint _
    have hlast := hstep ρ'
    rw [hread] at hlast
    by_cases hn0 : n = 0
    · rw [if_pos hn0] at hlast
      have htest : (Int64.ofInt n != 0) = false := by simpa using hzero.2 hn0
      simp only [htest]
      exact .running (.inl (.tail' hruns hlast)) hno hm'
    · rw [if_neg hn0] at hlast
      have htest : (Int64.ofInt n != 0) = true := by simpa using mt hzero.1 hn0
      simp only [htest]
      exact .running (.inl (.tail' hruns hlast)) hyes hm'
  · rw [hfault]
    exact ⟨_, rfl, .done (.failed hruns hfaults)⟩

lemma target_mem (hcases : ∀ case ∈ names.cases, labels case.1)
    (hdef : ∀ name ∈ names.default, labels name) (htail : labels names.tail)
    : labels (Goto.target names accepts) := by
  unfold Goto.target
  split
  · next name constant hfind => exact hcases _ (List.mem_of_find?_eq_some hfind)
  · cases hname : names.default with
    | none => exact htail
    | some name => exact hdef name hname

end

section

variable (hF : Finished code dF) (c : Env)
  (hvars : ∀ x p, vars x = some p → (c.scopes.symbol x).kind ≠ .function) {result : TypeId}
  {labels : String → Prop} {rest : List Stmt}

include hF hvars

lemma retValue_follows (hret : dF.returnType = .ofPrimitive p ∧ dF.returnRegister.isSome)
    (he : e.Scalar c.types vars p) (hd : d.Ready vars)
    (h : stmt c (.ret tok (some e)) isTail d = .ok ((), d')) (hleads : d'.Leads dF)
    (htail : isTail = true → rest = [])
    (hrest : Covers code dF c vars result labels rest d'.instructions.size)
    (hm : Matches vars dF σ ρ) (body : Stmt) :
    ∃ moment, Goto.stmt (Meaning.integers c.types) body rest σ (.ret tok (some e)) = some moment ∧
      Follows code dF c vars result labels (.ret tok (some e) :: rest) (d.instructions.size, ρ)
        moment := by
  obtain ⟨htype, hsome⟩ := hret
  obtain ⟨q, hq⟩ := Option.isSome_iff_exists.1 hsome
  obtain ⟨d1, hext, hfills, hlast⟩ := retValue_eq_ok hF c hvars he hd h
  -- The code after the value goes to the end of the method.
  obtain ⟨hleads1, last, hleave, hend⟩ : d1.Leads dF ∧ ∃ last, dF.labels.find? leaveLabel = some last ∧
      ∀ ρ, Local.Runs code (d1.instructions.size, ρ) (last, ρ) := by
    cases isTail with
    | true =>
      obtain rfl : d' = d1 := hlast
      obtain rfl := htail rfl
      exact ⟨hleads, hrest.leaves⟩
    | false =>
      obtain ⟨last, hleave, hstep⟩ := jump_step hF hlast hleads
      exact ⟨(jump_ext hext.sound hlast).leads.trans hleads, last, hleave, fun ρ => .single (hstep ρ)⟩
  have hqd : d.returnRegister = some q := ((hext.leads.trans hleads1).result).symm.trans hq
  have hyields := (hfills q hqd).yields hleads1 σ ρ hm.agrees
  simp only [Goto.stmt, Meaning.integers_eval he]
  cases hvalue : e.evaluate c.types σ with
  | ok =>
    rw [hvalue] at hyields
    obtain ⟨ρ', hruns, hread, -⟩ := hyields
    refine ⟨_, rfl, .done (.returned hleave (hruns.trans (hend ρ')) ?_)⟩
    rw [htype, extend_eq (isInteger_ofPrimitive he.isInteger), returned, hq]
    rw [hread]
    rfl
  | error =>
    rw [hvalue] at hyields
    obtain ⟨there, hruns, hfaults⟩ := hyields
    exact ⟨_, rfl, .done (.failed hruns hfaults)⟩

end

/-- The finished code of a body.  Every jump leads to a label of the body, and the code of what remains
there is at the place of the label. -/
structure Realizes (code : Array Instruction) (dF : Draft) (c : Env)
    (vars : SymbolId → Option Primitive) (result : TypeId) (labels : String → Prop) (body : Stmt) :
    Prop where
  finished : Finished code dF
  symbols : ∀ x p, vars x = some p → (c.scopes.symbol x).kind ≠ .function
  places : dF.Places vars
  jumps : ∀ label, labels label → ∃ found, Goto.seek label body [] = some found ∧
    ∀ pc, dF.labels.find? label = some pc → Covers code dF c vars result labels found pc
  returns : ∀ p, c.types.shape result = .builtin p → p.isInteger = true →
    dF.returnType = .ofPrimitive p ∧ dF.returnRegister.isSome
  leaves : ∀ pc, dF.labels.find? leaveLabel = some pc → code[pc]? = some (returnOf dF)

section

variable {c : Env} {result : TypeId} {labels : String → Prop} {body : Stmt}
  (hR : Realizes code dF c vars result labels body) {rest : List Stmt} {pc : Nat}

include hR

/-- Every step of a run is matched by steps of the code. -/
lemma covers_step (h : Covers code dF c vars result labels rest pc) (hm : Matches vars dF σ ρ) :
    ∃ moment, Goto.step (Meaning.integers c.types) body (.running rest σ) = some moment ∧
      Follows code dF c vars result labels rest (pc, ρ) moment := by
  have hF := hR.finished
  have hvars := hR.symbols
  induction h with
  | nil hleave =>
    refine ⟨_, rfl, .done (.returned hleave .refl ?_)⟩
    rw [hm.returned_eq, OperandType.extend_zero]
    rfl
  | jump hstep _ ih =>
    obtain ⟨moment, hmoment, hfoll⟩ := ih
    exact ⟨moment, hmoment, hfoll.of_runs (.single (hstep ρ))⟩
  | @cons s rest isTail d d' hs hd h hleads htail hrest =>
    have hless (inner : List Stmt) (hinner : (nodesOfList inner).length < s.nodes.length) :
        (nodesOfList (inner ++ rest)).length < (nodesOfList (s :: rest)).length := by
      rw [nodesOfList_append, nodesOfList, List.length_append, List.length_append]
      omega
    have hskip : (nodesOfList rest).length < (nodesOfList (s :: rest)).length :=
      hless [] (by unfold nodes; exact Nat.succ_pos _)
    cases hs with
    | @declare _ _ _ _ _ _ hnote htype hshape hx he =>
      obtain ⟨o, d1, hrun, h⟩ := bind_eq_ok h
      cases h
      obtain ⟨d1, r, hsize, -, hd1, -, hr, hfills⟩ :=
        declare_fills hF c hvars hnote htype hshape hx he hd.sound hd.places hrun
      simp only [Goto.step, Goto.stmt, Meaning.integers, ← hsize]
      exact hfills.follows hd1 hleads hR.places hx hr hm hrest hskip
    | @assign _ _ _ _ _ _ _ hnote hnote' hx he =>
      obtain ⟨o, d1, hrun, h⟩ := bind_eq_ok h
      cases h
      obtain ⟨r, -, hr, hfills⟩ :=
        assign_fills hF c hvars hnote hnote' hx he hd.sound hd.places hrun
      exact hfills.follows hd.sound hleads hR.places hx hr hm hrest hskip
    | block hbody | seq hbody =>
      exact ⟨_, rfl, .running (.inr ⟨.refl, hless _ (by simp [nodes])⟩)
        (stmts_covers hF c hvars hbody hd h hleads htail hrest) hm⟩
    | branch hcond hyes =>
      obtain ⟨test, d1, d2, d3, hvalue, hleads1, hstep, hd2, hyesCode, hleads3, hsize⟩ :=
        (branch_parts hF c hvars hcond (stmt_grows hF c hvars hyes) hd h).2 hleads
      have hno : Covers code dF c vars result labels ((none : Option Stmt).toList ++ rest)
          d'.instructions.size := hrest
      exact branch_follows hcond hd hvalue hleads1 hstep
        (.cons hyes hd2 hyesCode hleads3 (by simp) (hsize ▸ hrest)) hno hm body
    | branchElse hcond hyes hno =>
      obtain ⟨test, d1, d2, d3, d5, d6, hvalue, hleads1, hstep, hd2, hyesCode, hleads3, hjump, hd5,
        hnoCode, hleads6, hsize⟩ := (branchElse_parts hF c hvars hcond
          (stmt_grows hF c hvars hyes) (stmt_grows hF c hvars hno) hd h).2 hleads
      exact branch_follows hcond hd hvalue hleads1 hstep
        (.cons hyes hd2 hyesCode hleads3 (by simp) (.jump hjump hrest))
        (.cons hno hd5 hnoCode hleads6 (by simp) (hsize ▸ hrest)) hm body
    | ret =>
      obtain ⟨last, hleave, hend⟩ : ∃ last, dF.labels.find? leaveLabel = some last ∧
          Local.Runs code (d.instructions.size, ρ) (last, ρ) := by
        cases isTail with
        | true =>
          cases h
          obtain rfl := htail rfl
          obtain ⟨last, hleave, hruns⟩ := hrest.leaves
          exact ⟨last, hleave, hruns ρ⟩
        | false =>
          obtain ⟨last, hleave, hstep⟩ := jump_step hF h hleads
          exact ⟨last, hleave, .single (hstep ρ)⟩
      refine ⟨_, rfl, .done (.returned hleave hend ?_)⟩
      rw [hm.returned_eq, OperandType.extend_zero]
      rfl
    | retValue hres he =>
      exact retValue_follows hF c hvars (hR.returns _ hres he.isInteger) he hd h hleads htail
        hrest hm body
    | @goto _ label hlabel =>
      obtain ⟨offset, hoff, hstep⟩ := jump_step hF h hleads
      obtain ⟨found, hfound, hcovers⟩ := hR.jumps label hlabel
      refine ⟨.running found σ, by simp [Goto.step, Goto.stmt, Goto.jump, hfound], ?_⟩
      exact .running (.inl (.single (hstep ρ))) (hcovers offset hoff) hm
    | label =>
      obtain ⟨-, -, hsize⟩ := defineLabel_ext hd.sound h
      exact ⟨_, rfl, .running (.inr ⟨.refl, hskip⟩) (hsize ▸ hrest) hm⟩
    | empty =>
      cases h
      exact ⟨_, rfl, .running (.inr ⟨.refl, hskip⟩) hrest hm⟩
    | @switch _ selector _ _ p hsel hcases hdef htailLabel hbody =>
      obtain ⟨d1, r, d2, d4, d5, -, hsize, hd1, hvalue, hleads2, hdispatch, -⟩ :=
        (switch_parts hF c hvars hsel (stmt_grows hF c hvars hbody) hd h).2 hleads
      have hint := OperandType.isInteger_ofPrimitive hsel.isInteger
      simp only [Goto.step, Goto.stmt, Meaning.integers_eval hsel]
      obtain ⟨n, ρ', hn, hruns, hread, hm'⟩ | ⟨fault, there, hfault, hruns, hfaults⟩ :=
        hvalue.evaluates hd1.sound hleads2 hm
      · obtain ⟨pc, ρ'', hpc, hm'', hruns'⟩ := hdispatch σ ρ' hm'
        have haccepts : (fun m => (Meaning.integers c.types).constant selector m == Int64.ofInt n) =
            fun m => (OperandType.ofPrimitive p).reduce m.toInt ==
              (OperandType.ofPrimitive p).read (ρ' r.index) := by
          funext m
          rw [Bool.eq_iff_iff, beq_iff_eq, beq_iff_eq, ← hread]
          simp only [Meaning.integers, hsel.isPrimitive.operand]
          exact OperandType.ofInt_reduce_inj hint
        rw [hn]
        simp only [Except.map, afterEval, haccepts, Goto.jump]
        obtain ⟨found, hfound, hcovers⟩ := hR.jumps _ (target_mem hcases hdef htailLabel)
        rw [hfound]
        exact ⟨_, rfl, .running (.inl (.trans_right (hsize ▸ hruns) hruns')) (hcovers pc hpc) hm''⟩
      · rw [hfault]
        exact ⟨_, rfl, .done (.failed (hsize ▸ hruns) hfaults)⟩

lemma halts_of_reaches (hcovers : Covers code dF c vars result labels rest pc)
    (hm : Matches vars dF σ ρ)
    (h : StateTransition.Reaches (Goto.step (Meaning.integers c.types) body) (.running rest σ)
      (.done outcome)) : Halts code dF (pc, ρ) outcome := by
  generalize hstart : Moment.running rest σ = start at h
  induction h using Relation.ReflTransGen.head_induction_on generalizing rest σ pc ρ with
  | refl => cases hstart
  | head hstep hrest ih =>
    subst hstart
    obtain ⟨moment, hmoment, hfoll⟩ := covers_step hR hcovers hm
    obtain rfl := Option.some.inj (hmoment.symm.trans hstep)
    cases hfoll with
    | running hmoves hcovers' hm' =>
      refine (ih hcovers' hm' rfl).of_runs ?_
      exact hmoves.elim Relation.TransGen.to_reflTransGen And.left
    | done hhalts =>
      -- Nothing follows an outcome.
      obtain hsame | ⟨next, hnext, -⟩ := Relation.ReflTransGen.cases_head hrest
      · cases hsame
        exact hhalts
      · cases hnext

end

end Code.Gen

end CompilerCore
