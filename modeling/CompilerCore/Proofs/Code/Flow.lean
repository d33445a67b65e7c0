import CompilerCore.Proofs.Code.Statements

/-!
# Code for jumps and branches

What remains of a run of a body is a list of statements.  Code *covers* such a list when it was made
for its statements one after the other, each followed by the next one or by a jump to it, with the
end of the method at the end.
-/

namespace CompilerCore

open CompilerCore.Code CompilerCore.Machine OperandType Option

/-- A draft of a method that returns no aggregate, with integer variables in registers. -/
structure Code.Draft.Ready (vars : SymbolId → Option Primitive) (d : Draft) : Prop where
  sound : d.Sound
  places : d.Places vars
  scalar : d.returnsAggregate = false

namespace Code.Gen

variable {code : Array Instruction} {dF : Draft} {vars : SymbolId → Option Primitive}
  {d d1 d' d'' : Draft} {r : Register} {p : Primitive} {value : (SymbolId → Int) → Except Fault Int}
  {σ : SymbolId → Int} {ρ ρ' : Registers}

/-! ## Growth -/

/-- Code for statements makes a draft into another. -/
structure Grows (vars : SymbolId → Option Primitive) (d d' : Draft) : Prop where
  leads : d.Leads d'
  ready : d'.Ready vars

lemma Grows.trans (h : Grows vars d d1) (h' : Grows vars d1 d') : Grows vars d d' :=
  ⟨h.leads.trans h'.leads, h'.ready⟩

lemma Extends.grows (h : Extends d d') (hd : d.Ready vars) : Grows vars d d' :=
  ⟨h.leads, h.sound, h.places hd.places, h.leads.aggregate.trans hd.scalar⟩

/-- A statement whose code makes a draft into another. -/
def GrowsBy (c : Env) (vars : SymbolId → Option Primitive) (s : Stmt) : Prop :=
  ∀ {d d' : Draft} {isTail : Bool}, d.Ready vars → stmt c s isTail d = .ok ((), d') → Grows vars d d'

lemma stmts_grows (hbody : ∀ s ∈ body, GrowsBy c vars s) (hd : d.Ready vars)
    (h : stmts c body isTail d = .ok ((), d')) : Grows vars d d' := by
  induction body generalizing d with
  | nil =>
    cases h
    exact ⟨.refl _, hd⟩
  | cons s _ ih =>
    obtain ⟨_, d1, hs, h⟩ := bind_eq_ok h
    have hfirst := hbody s (.head _) hd hs
    exact hfirst.trans (ih (fun s hs => hbody s (.tail _ hs)) hfirst.ready h)

section

variable (hF : Finished code dF) (c : Env)
  (hvars : ∀ x p, vars x = some p → (c.scopes.symbol x).kind ≠ .function)

include hF hvars

lemma value_delivers (he : e.Scalar c.types vars p) (hd : d.Ready vars)
    (h : Gen.value c e d = .ok (r, d')) :
    Delivers code dF vars d d' r (e.handed? c.types) (.ofPrimitive p) (e.evaluate c.types) :=
  (expr_computes hF c hvars he).need d r d' hd.sound hd.places h

variable {tok : Token} {isTail : Bool} {result : TypeId} {labels : String → Prop}

lemma retValue_eq_ok (he : e.Scalar c.types vars p) (hd : d.Ready vars)
    (h : stmt c (.ret tok (some e)) isTail d = .ok ((), d')) : ∃ d1, Extends d d1 ∧
      (∀ q, d.returnRegister = some q →
        Fills code dF vars d d1 q (.ofPrimitive p) (e.evaluate c.types)) ∧
      if isTail then d' = d1 else jump leaveLabel d1 = .ok ((), d') := by
  obtain ⟨o, d1, ho, h⟩ := bind_eq_ok h
  obtain ⟨r, rfl, hvalue⟩ := expr_computes hF c hvars he d o d1 hd.sound hd.places ho
  obtain ⟨_, d2, hstore, h⟩ := bind_eq_ok h
  obtain ⟨_, _, hget, hstore⟩ := bind_eq_ok hstore
  cases hget
  have hlast : if isTail then d' = d2 else jump leaveLabel d2 = .ok ((), d') := by
    cases isTail with
    | true =>
      cases h
      rfl
    | false => exact h
  refine ⟨d2, ?_, fun q hq => ?_, hlast⟩
  · cases hres : d1.returnRegister with
    | none =>
      rw [hres] at hstore
      cases hstore
      exact hvalue.toExtends
    | some q =>
      rw [hres, hvalue.leads.aggregate, hd.scalar] at hstore
      have hbound : q.index < d.registerCount :=
        hd.sound.result q (hvalue.leads.result.symm.trans hres)
      exact (hvalue.moveInto hF hbound hstore).toExtends
  · rw [hvalue.leads.result.trans hq, hvalue.leads.aggregate, hd.scalar] at hstore
    exact hvalue.moveInto hF (hd.sound.result q hq) hstore

lemma branch_parts {cond : Expr} (hcond : cond.Scalar c.types vars p) (hyes : GrowsBy c vars yes)
    (hd : d.Ready vars) (h : stmt c (.branch tok cond yes none) isTail d = .ok ((), d')) :
    Grows vars d d' ∧ (d'.Leads dF → ∃ test d1 d2 d3,
      Delivers code dF vars d d1 test (cond.handed? c.types) (.ofPrimitive p)
        (cond.evaluate c.types) ∧ d1.Leads dF ∧
      (∀ ρ, Local.Step code (d1.instructions.size, ρ)
        (if (ofPrimitive p).read (ρ test.index) = 0 then d'.instructions.size
          else d2.instructions.size, ρ)) ∧
      d2.Ready vars ∧ stmt c yes false d2 = .ok ((), d3) ∧ d3.Leads dF ∧
      d3.instructions.size = d'.instructions.size) := by
  obtain ⟨type, htype, hshape⟩ := hcond.isPrimitive
  obtain ⟨test, d1, hvalue, h⟩ := bind_eq_ok (of_typeOf_bind htype h)
  have h1 := value_delivers hF c hvars hcond hd hvalue
  obtain ⟨done, d2, hlabel, h⟩ := bind_eq_ok h
  obtain ⟨rfl, h2⟩ := newLabel_ext h1.sound hlabel
  obtain ⟨_, d3, hbr, h⟩ := bind_eq_ok h
  rw [Env.operand, TypeTable.operand_of_builtin hshape] at hbr
  have h3 := h2.trans (branch_ext h2.sound rfl (by rintro _ ⟨⟩; exact h1.bound) hbr)
  have hfirst := (h1.toExtends.trans h3).grows hd
  obtain ⟨_, d4, hyesCode, hdone⟩ := bind_eq_ok h
  have hsecond := hyes hfirst.ready hyesCode
  obtain ⟨hext, hfind, hsize⟩ := defineLabel_ext hsecond.ready.sound hdone
  refine ⟨hfirst.trans (hsecond.trans (hext.grows hsecond.ready)), fun hleads => ?_⟩
  have hleads4 := hext.leads.trans hleads
  have hleads3 := hsecond.leads.trans hleads4
  obtain ⟨_, hto, hstep⟩ := branch_step hF true
    (isInteger_ofPrimitive hcond.isInteger) hbr hleads3
  obtain rfl := some.inj (hto.symm.trans (hleads.labels _ _ hfind))
  refine ⟨test, d1, d3, d4, h1, h3.leads.trans hleads3, ?_, hfirst.ready, hyesCode, hleads4,
    hsize.symm⟩
  simpa [hsize] using hstep

lemma branchElse_parts {cond : Expr} (hcond : cond.Scalar c.types vars p)
    (hyes : GrowsBy c vars yes) (hno : GrowsBy c vars no) (hd : d.Ready vars)
    (h : stmt c (.branch tok cond yes (some no)) isTail d = .ok ((), d')) :
    Grows vars d d' ∧ (d'.Leads dF → ∃ test d1 d2 d3 d5 d6,
      Delivers code dF vars d d1 test (cond.handed? c.types) (.ofPrimitive p)
        (cond.evaluate c.types) ∧ d1.Leads dF ∧
      (∀ ρ, Local.Step code (d1.instructions.size, ρ)
        (if (ofPrimitive p).read (ρ test.index) = 0 then d5.instructions.size
          else d2.instructions.size, ρ)) ∧
      d2.Ready vars ∧ stmt c yes false d2 = .ok ((), d3) ∧ d3.Leads dF ∧
      (∀ ρ, Local.Step code (d3.instructions.size, ρ) (d'.instructions.size, ρ)) ∧
      d5.Ready vars ∧ stmt c no false d5 = .ok ((), d6) ∧ d6.Leads dF ∧
      d6.instructions.size = d'.instructions.size) := by
  obtain ⟨type, htype, hshape⟩ := hcond.isPrimitive
  obtain ⟨test, d1, hvalue, h⟩ := bind_eq_ok (of_typeOf_bind htype h)
  have h1 := value_delivers hF c hvars hcond hd hvalue
  obtain ⟨done, d2, hlabel, h⟩ := bind_eq_ok h
  obtain ⟨rfl, h2⟩ := newLabel_ext h1.sound hlabel
  obtain ⟨otherwise, d2, hlabel', h⟩ := bind_eq_ok h
  obtain ⟨rfl, h2'⟩ := newLabel_ext h2.sound hlabel'
  obtain ⟨_, d2, hbr, h⟩ := bind_eq_ok h
  rw [Env.operand, TypeTable.operand_of_builtin hshape] at hbr
  have h2 := h2.trans (h2'.trans (branch_ext h2'.sound rfl (by rintro _ ⟨⟩; exact h1.bound) hbr))
  have hfirst := (h1.toExtends.trans h2).grows hd
  obtain ⟨_, d3, hyesCode, h⟩ := bind_eq_ok h
  have h3 := hyes hfirst.ready hyesCode
  obtain ⟨_, d4, hjump, h⟩ := bind_eq_ok h
  have h4 := (jump_ext h3.ready.sound hjump).grows h3.ready
  obtain ⟨_, d5, hotherwise, h⟩ := bind_eq_ok h
  obtain ⟨hext5, hfind5, hsize5⟩ := defineLabel_ext h4.ready.sound hotherwise
  have h5 := hext5.grows h4.ready
  obtain ⟨_, d6, hnoCode, hdone⟩ := bind_eq_ok h
  have h6 := hno h5.ready hnoCode
  obtain ⟨hext, hfind, hsize⟩ := defineLabel_ext h6.ready.sound hdone
  refine ⟨hfirst.trans (h3.trans (h4.trans (h5.trans (h6.trans (hext.grows h6.ready))))),
    fun hleads => ?_⟩
  have hleads6 := hext.leads.trans hleads
  have hleads5 := h6.leads.trans hleads6
  have hleads4 := h5.leads.trans hleads5
  have hleads2 := h3.leads.trans (h4.leads.trans hleads4)
  obtain ⟨_, hto, hstep⟩ := branch_step hF true
    (isInteger_ofPrimitive hcond.isInteger) hbr hleads2
  obtain rfl := some.inj (hto.symm.trans (hleads5.labels _ _ hfind5))
  obtain ⟨_, hto', hskip⟩ := jump_step hF hjump hleads4
  obtain rfl := some.inj (hto'.symm.trans (hleads.labels _ _ hfind))
  refine ⟨test, d1, d2, d3, d5, d6, h1, h2.leads.trans hleads2, ?_, hfirst.ready, hyesCode,
    h4.leads.trans hleads4, ?_, h5.ready, hnoCode, hleads6, hsize.symm⟩
  · simpa [hsize5] using hstep
  · simpa [hsize] using hskip

lemma switch_parts (hsel : selector.Scalar c.types vars p) (hbody : GrowsBy c vars body)
    (hd : d.Ready vars)
    (h : stmt c (.switch tok selector body (some names)) isTail d = .ok ((), d')) :
    Grows vars d d' ∧ (d'.Leads dF → ∃ d1 r d2 d4 d5,
      dF.labels.find? names.head = some d.instructions.size ∧
      d1.instructions.size = d.instructions.size ∧ d1.Ready vars ∧
      Delivers code dF vars d1 d2 r (selector.handed? c.types) (.ofPrimitive p)
        (selector.evaluate c.types) ∧ d2.Leads dF ∧
      (∀ σ ρ, Matches vars dF σ ρ → ∃ pc ρ',
        dF.labels.find? (Goto.target names fun n => (ofPrimitive p).reduce n.toInt ==
          (ofPrimitive p).read (ρ r.index)) = some pc ∧
        Matches vars dF σ ρ' ∧
        Relation.TransGen (Local.Step code) (d2.instructions.size, ρ) (pc, ρ')) ∧
      d4.Ready vars ∧ stmt c body false d4 = .ok ((), d5) ∧ d5.Ready vars ∧ d5.Leads dF ∧
      defineLabel names.tail d5 = .ok ((), d')) := by
  obtain ⟨type, htype, hshape⟩ := hsel.isPrimitive
  obtain ⟨_, d1, hhead, h⟩ := bind_eq_ok (of_typeOf_bind htype h)
  obtain ⟨hext1, hfind1, hsize1⟩ := defineLabel_ext hd.sound hhead
  have h1 := hext1.grows hd
  obtain ⟨r, d2, hvalue, h⟩ := bind_eq_ok h
  have h2 := value_delivers hF c hvars hsel h1.ready hvalue
  obtain ⟨_, d3, hdispatch, h⟩ := bind_eq_ok h
  rw [Env.operand, TypeTable.operand_of_builtin hshape] at hdispatch
  obtain ⟨h3, hruns⟩ := dispatch_runs hF (isInteger_ofPrimitive hsel.isInteger)
    h2.sound h2.bound hdispatch
  obtain ⟨_, d4, hjump, h⟩ := bind_eq_ok h
  have h4 := jump_ext h3.sound hjump
  have h4' := (h2.toExtends.trans (h3.trans h4)).grows h1.ready
  obtain ⟨_, d5, hbodyCode, htail⟩ := bind_eq_ok h
  have h5 := hbody h4'.ready hbodyCode
  have h6 := (defineLabel_ext h5.ready.sound htail).1.grows h5.ready
  refine ⟨h1.trans (h4'.trans (h5.trans h6)), fun hleads => ?_⟩
  have hleads5 := h6.leads.trans hleads
  have hleads4 := h5.leads.trans hleads5
  have hleads2 := h3.leads.trans (h4.leads.trans hleads4)
  refine ⟨d1, r, d2, d4, d5, (h2.leads.trans hleads2).labels _ _ hfind1, hsize1, h1.ready, h2,
    hleads2, fun σ ρ hm => ?_, h4'.ready, hbodyCode, h5.ready, hleads5, htail⟩
  obtain ⟨pc, ρ', hpc, hsame, hruns⟩ := hruns _ d4 hjump hleads4 ρ
  exact ⟨pc, ρ', hpc, hm.of_same h2.sound h3.leads (h4.leads.trans hleads4) h3.storage hsame, hruns⟩

lemma stmt_grows (hs : s.Scalar c vars result labels) (hd : d.Ready vars)
    (h : stmt c s isTail d = .ok ((), d')) : Grows vars d d' := by
  induction hs generalizing d d' isTail with
  | declare hnote htype hshape hx he =>
    obtain ⟨o, d1, hrun, h⟩ := bind_eq_ok h
    cases h
    obtain ⟨d1, r, -, hleads, hd1, hplaces, -, hfills⟩ :=
      declare_fills hF c hvars hnote htype hshape hx he hd.sound hd.places hrun
    have hfirst : Grows vars d d1 := ⟨hleads, hd1, hplaces, hleads.aggregate.trans hd.scalar⟩
    exact hfirst.trans (hfills.toExtends.grows hfirst.ready)
  | assign hnote hnote' hx he =>
    obtain ⟨o, d1, hrun, h⟩ := bind_eq_ok h
    cases h
    obtain ⟨r, -, -, hfills⟩ :=
      assign_fills hF c hvars hnote hnote' hx he hd.sound hd.places hrun
    exact hfills.toExtends.grows hd
  | block _ ih | seq _ ih =>
    exact stmts_grows ih hd h
  | branch hcond _ ih => exact (branch_parts hF c hvars hcond ih hd h).1
  | branchElse hcond _ _ ihYes ihNo =>
    exact (branchElse_parts hF c hvars hcond ihYes ihNo hd h).1
  | ret =>
    cases isTail with
    | true =>
      cases h
      exact ⟨.refl _, hd⟩
    | false => exact (jump_ext hd.sound h).grows hd
  | retValue _ he =>
    obtain ⟨d1, hext, -, hlast⟩ := retValue_eq_ok hF c hvars he hd h
    have hfirst := hext.grows hd
    cases isTail with
    | true =>
      obtain rfl : d' = d1 := hlast
      exact hfirst
    | false => exact hfirst.trans ((jump_ext hfirst.ready.sound hlast).grows hfirst.ready)
  | goto => exact (jump_ext hd.sound h).grows hd
  | label => exact (defineLabel_ext hd.sound h).1.grows hd
  | empty =>
    cases h
    exact ⟨.refl _, hd⟩
  | switch hsel _ _ _ _ ih => exact (switch_parts hF c hvars hsel ih hd h).1

end

/-! ## Code for what remains of a run -/

/-- Code from a place on for statements that remain to be done.  Only the last statement of a body is
made as one that the end of the method follows. -/
inductive Covers (code : Array Instruction) (dF : Draft) (c : Env)
    (vars : SymbolId → Option Primitive) (result : TypeId) (labels : String → Prop) :
    List Stmt → Nat → Prop where
  | nil {pc : Nat} : dF.labels.find? leaveLabel = some pc → Covers code dF c vars result labels [] pc
  | jump {rest : List Stmt} {pc target : Nat} :
    (∀ ρ, Local.Step code (pc, ρ) (target, ρ)) → Covers code dF c vars result labels rest target →
    Covers code dF c vars result labels rest pc
  | cons {s : Stmt} {rest : List Stmt} {isTail : Bool} {d d' : Draft} :
    s.Scalar c vars result labels → d.Ready vars → stmt c s isTail d = .ok ((), d') → d'.Leads dF →
    (isTail = true → rest = []) → Covers code dF c vars result labels rest d'.instructions.size →
    Covers code dF c vars result labels (s :: rest) d.instructions.size

section

variable (hF : Finished code dF) (c : Env)
  (hvars : ∀ x p, vars x = some p → (c.scopes.symbol x).kind ≠ .function) {result : TypeId}
  {labels : String → Prop}

include hF hvars

variable {isTail : Bool}

lemma stmts_cons (hbody : ∀ s' ∈ s :: body, s'.Scalar c vars result labels) (hd : d.Ready vars)
    (h : stmts c (s :: body) isTail d = .ok ((), d')) (hleads : d'.Leads dF) :
    ∃ d1 isLast, stmt c s isLast d = .ok ((), d1) ∧ stmts c body isTail d1 = .ok ((), d') ∧
      d1.Ready vars ∧ d1.Leads dF ∧ (isLast = true → isTail = true ∧ body = []) := by
  obtain ⟨_, d1, hs, h⟩ := bind_eq_ok h
  have hfirst := stmt_grows hF c hvars (hbody s (.head _)) hd hs
  have hsecond := stmts_grows
    (fun s hs => stmt_grows hF c hvars (hbody s (.tail _ hs))) hfirst.ready h
  exact ⟨d1, _, hs, h, hfirst.ready, hsecond.leads.trans hleads, fun hlast => by simpa using hlast⟩

lemma stmts_covers (hbody : ∀ s ∈ body, s.Scalar c vars result labels) (hd : d.Ready vars)
    (h : stmts c body isTail d = .ok ((), d')) (hleads : d'.Leads dF)
    (htail : isTail = true → rest = [])
    (hrest : Covers code dF c vars result labels rest d'.instructions.size) :
    Covers code dF c vars result labels (body ++ rest) d.instructions.size := by
  induction body generalizing d with
  | nil =>
    cases h
    exact hrest
  | cons s body ih =>
    obtain ⟨d1, isLast, hs, h, hd1, hleads1, hlast⟩ := stmts_cons hF c hvars hbody hd h hleads
    rw [List.forall_mem_cons] at hbody
    refine .cons hbody.1 hd hs hleads1 (fun h => ?_) (ih hbody.2 hd1 h)
    simp [(hlast h).2, htail (hlast h).1]

/-- What remains from a label in a list of statements on is covered, if this is so for each. -/
lemma seekIn_covers (hbody : ∀ s ∈ body, s.Scalar c vars result labels)
    (hseek : ∀ s ∈ body, ∀ {d d' isTail rest}, d.Ready vars → stmt c s isTail d = .ok ((), d') →
      d'.Leads dF → (isTail = true → rest = []) →
      Covers code dF c vars result labels rest d'.instructions.size →
      Goto.seek label s rest = some found →
      ∃ pc, dF.labels.find? label = some pc ∧ Covers code dF c vars result labels found pc)
    (hd : d.Ready vars) (h : stmts c body isTail d = .ok ((), d')) (hleads : d'.Leads dF)
    (htail : isTail = true → rest = [])
    (hrest : Covers code dF c vars result labels rest d'.instructions.size)
    (hfound : Goto.seekIn label body rest = some found) :
    ∃ pc, dF.labels.find? label = some pc ∧ Covers code dF c vars result labels found pc := by
  induction body generalizing d with
  | nil => cases hfound
  | cons s body ih =>
    obtain ⟨d1, isLast, hs, h, hd1, hleads1, hlast⟩ := stmts_cons hF c hvars hbody hd h hleads
    rw [List.forall_mem_cons] at hbody hseek
    rw [Goto.seekIn, orElse_eq_some] at hfound
    obtain hfound | ⟨-, hfound⟩ := hfound
    · refine hseek.1 hd hs hleads1 (fun h => ?_)
        (stmts_covers hF c hvars hbody.2 hd1 h hleads htail hrest) hfound
      simp [(hlast h).2, htail (hlast h).1]
    · exact ih hbody.2 hseek.2 hd1 h hfound

/-- What remains from a label of a statement on is covered by the code at the label. -/
lemma seek_covers (hs : s.Scalar c vars result labels) (hd : d.Ready vars)
    (h : stmt c s isTail d = .ok ((), d')) (hleads : d'.Leads dF)
    (htail : isTail = true → rest = [])
    (hrest : Covers code dF c vars result labels rest d'.instructions.size)
    (hfound : Goto.seek label s rest = some found) :
    ∃ pc, dF.labels.find? label = some pc ∧ Covers code dF c vars result labels found pc := by
  induction hs generalizing d d' isTail rest with
  | block hbody ih | seq hbody ih =>
    exact seekIn_covers hF c hvars hbody ih hd h hleads htail hrest hfound
  | branch hcond hyes ih =>
    obtain ⟨test, d1, d2, d3, -, -, -, hd2, hyesCode, hleads3, hsize⟩ :=
      (branch_parts hF c hvars hcond (stmt_grows hF c hvars hyes) hd h).2 hleads
    exact ih hd2 hyesCode hleads3 (by simp) (hsize ▸ hrest) hfound
  | branchElse hcond hyes hno ihYes ihNo =>
    obtain ⟨test, d1, d2, d3, d5, d6, -, -, -, hd2, hyesCode, hleads3, hstep, hd5, hnoCode, hleads6,
      hsize⟩ := (branchElse_parts hF c hvars hcond (stmt_grows hF c hvars hyes)
        (stmt_grows hF c hvars hno) hd h).2 hleads
    rw [Goto.seek, orElse_eq_some] at hfound
    obtain hfound | ⟨-, hfound⟩ := hfound
    · exact ihYes hd2 hyesCode hleads3 (by simp) (.jump hstep hrest) hfound
    · exact ihNo hd5 hnoCode hleads6 (by simp) (hsize ▸ hrest) hfound
  | @label _ _ =>
    rw [Goto.seek] at hfound
    split at hfound
    · next heq =>
      subst heq
      cases hfound
      obtain ⟨-, hlabel, -⟩ := defineLabel_ext hd.sound h
      exact ⟨_, hleads.labels _ _ hlabel, .cons .label hd h hleads htail hrest⟩
    · cases hfound
  | @switch tok _ _ names _ hsel hcases hdef htailLabel hbody ih =>
    obtain ⟨d1, r, d2, d4, d5, hlabel1, -, -, -, -, -, hd4, hbodyCode, hd5, hleads5, htailCode⟩ :=
      (switch_parts hF c hvars hsel (stmt_grows hF c hvars hbody) hd h).2 hleads
    obtain ⟨-, hlabel5, -⟩ := defineLabel_ext hd5.sound htailCode
    have htailStmt : stmt c (.label tok names.tail) false d5 = .ok ((), d') := htailCode
    have hend := Covers.cons .label hd5 htailStmt hleads (by simp) hrest
    rw [Goto.seek] at hfound
    split at hfound
    · next heq =>
      subst heq
      cases hfound
      exact ⟨_, hlabel1, .cons (.switch hsel hcases hdef htailLabel hbody) hd h hleads htail
        hrest⟩
    · rw [orElse_eq_some] at hfound
      obtain hfound | ⟨-, hfound⟩ := hfound
      · exact ih hd4 hbodyCode hleads5 (by simp) hend hfound
      · split at hfound
        · next heq =>
          subst heq
          cases hfound
          exact ⟨_, hleads.labels _ _ hlabel5, hend⟩
        · cases hfound
  | _ => cases hfound

end

end Code.Gen

end CompilerCore
