import CompilerCore.Proofs.Code.Computes
import CompilerCore.Proofs.Lowering.Labels

/-!
# Code for statements is correct

The code of a body of labels, jumps, branches and assignments of integer variables goes through the
places of the body in the order in which a run of the body does.  What remains of a run is a list of
statements; the code that *covers* it starts at a place and ends at the end of the method.
-/

namespace CompilerCore

open CompilerCore.Code CompilerCore.Machine Option

/-! ## Statements on integers -/

/-- What integer expressions mean, with declarations and assignments of variables.  A constant of a
case is cut to the width of the selector. -/
def Meaning.integers (t : TypeTable) : Meaning (SymbolId → Int) Fault where
  eval e σ :=
    match e with
    | .declare _ x (some value) | .assign _ (.name _ _ (some x)) value =>
      (value.evaluate t σ).map fun n => (Int64.ofInt n, Function.update σ x n)
    | e => (e.evaluate t σ).map fun n => (Int64.ofInt n, σ)
  constant selector n := Int64.ofInt ((t.operand selector.type?).reduce n.toInt)
  abort := .aborted

/-- Statements that declare, assign, test and return integers, with jumps to labels of a given set.
Values have the types of the variables that they are for and of the result of the function. -/
inductive Stmt.Scalar (c : Env) (vars : SymbolId → Option Primitive) (result : TypeId)
    (labels : String → Prop) : Stmt → Prop where
  | declare {token : Token} {note : Note} {x : SymbolId} {value : Expr} {type : TypeId}
      {p : Primitive} : note.type.isSome → (c.scopes.symbol x).type = some type →
    c.types.shape type = .builtin p → vars x = some p → value.Scalar c.types vars p →
    Scalar c vars result labels (.expr token (.declare note x (some value)))
  | assign {token : Token} {note note' : Note} {text : String} {x : SymbolId} {value : Expr}
      {p : Primitive} : note.type.isSome → note'.type.isSome → vars x = some p →
    value.Scalar c.types vars p →
    Scalar c vars result labels (.expr token (.assign note (.name note' text (some x)) value))
  | block {token : Token} {scope : ScopeId} {body : List Stmt} :
    (∀ s ∈ body, Scalar c vars result labels s) → Scalar c vars result labels (.block token scope body)
  | seq {token : Token} {body : List Stmt} :
    (∀ s ∈ body, Scalar c vars result labels s) → Scalar c vars result labels (.seq token body)
  | branch {token : Token} {condition : Expr} {yes : Stmt} {p : Primitive} :
    condition.Scalar c.types vars p → Scalar c vars result labels yes →
    Scalar c vars result labels (.branch token condition yes none)
  | branchElse {token : Token} {condition : Expr} {yes no : Stmt} {p : Primitive} :
    condition.Scalar c.types vars p → Scalar c vars result labels yes →
    Scalar c vars result labels no → Scalar c vars result labels (.branch token condition yes (some no))
  | ret {token : Token} : Scalar c vars result labels (.ret token none)
  | retValue {token : Token} {value : Expr} {p : Primitive} : c.types.shape result = .builtin p →
    value.Scalar c.types vars p → Scalar c vars result labels (.ret token (some value))
  | goto {token : Token} {label : String} : labels label →
    Scalar c vars result labels (.goto token label)
  | label {token : Token} {name : String} : Scalar c vars result labels (.label token name)
  | empty {token : Token} : Scalar c vars result labels (.empty token)
  | switch {token : Token} {selector : Expr} {body : Stmt} {names : SwitchLabels} {p : Primitive} :
    selector.Scalar c.types vars p → (∀ case ∈ names.cases, labels case.1) →
    (∀ name ∈ names.default, labels name) → labels names.tail → Scalar c vars result labels body →
    Scalar c vars result labels (.switch token selector body (some names))

namespace Code.Gen

variable {code : Array Instruction} {dF : Draft} {vars : SymbolId → Option Primitive}
  {d d1 d' d'' : Draft} {r : Register} {p : Primitive} {value : (SymbolId → Int) → Except Fault Int}
  {σ : SymbolId → Int} {ρ ρ' : Registers}

/-! ## Registers during a run -/

/-- Registers during a run of a body: they hold the values of the variables, and the register of the
result is still zero. -/
structure Matches (vars : SymbolId → Option Primitive) (dF : Draft) (σ : SymbolId → Int)
    (ρ : Registers) : Prop where
  agrees : Agrees vars dF σ ρ
  result : ∀ q ∈ dF.returnRegister, ρ q.index = 0

lemma Matches.of_same (h : Matches vars dF σ ρ) (hd : d.Sound) (hleads : d.Leads d')
    (hleads' : d'.Leads dF) (hstor : d'.storage = d.storage)
    (hsame : ∀ k, ¬(d.registerCount ≤ k ∧ k < d'.registerCount) → ρ' k = ρ k) :
    Matches vars dF σ ρ' where
  agrees := h.agrees.of_same hd hleads' hstor hsame
  result q hq := by
    have hbound : q.index < d.registerCount :=
      hd.result q (((hleads.trans hleads').result).symm ▸ hq)
    rw [hsame q.index (by omega)]
    exact h.result q hq

variable {x : SymbolId} {note : Note} {label : String}

lemma Agrees.update (h : Agrees vars dF σ ρ) (hF : dF.Places vars) (hd : d.Sound)
    (hleads' : d'.Leads dF) (hstor : d'.storage = d.storage) (hx : vars x = some p)
    (hr : dF.storage.lookup x = some (.register r))
    (hread : (OperandType.ofPrimitive p).read (ρ' r.index) = n)
    (hsame : ∀ k, ¬((d.registerCount ≤ k ∧ k < d'.registerCount) ∨ k = r.index) → ρ' k = ρ k) :
    Agrees vars dF (Function.update σ x n) ρ' := by
  intro y q s hy hs
  by_cases hyx : y = x
  · subst hyx
    obtain rfl : p = q := some.inj (hx.symm.trans hy)
    obtain rfl : r = s := Storage.register.inj (some.inj (hr.symm.trans hs))
    rw [hread, Function.update_self]
  · have hindex : s.index ≠ r.index := fun heq => hyx (hF.injective y x s r hs hr heq)
    rw [hsame s.index (not_or.2 ⟨hd.outside hleads' hstor hs, hindex⟩), Function.update_of_ne hyx]
    exact h y q s hy hs

lemma Matches.update (h : Matches vars dF σ ρ) (hF : dF.Places vars) (hd : d.Sound)
    (hleads : d.Leads d') (hleads' : d'.Leads dF) (hstor : d'.storage = d.storage)
    (hx : vars x = some p) (hr : dF.storage.lookup x = some (.register r))
    (hread : (OperandType.ofPrimitive p).read (ρ' r.index) = n)
    (hsame : ∀ k, ¬((d.registerCount ≤ k ∧ k < d'.registerCount) ∨ k = r.index) → ρ' k = ρ k) :
    Matches vars dF (Function.update σ x n) ρ' where
  agrees := Agrees.update h.agrees hF hd hleads' hstor hx hr hread hsame
  result q hq := by
    have hbound : q.index < d.registerCount :=
      hd.result q (((hleads.trans hleads').result).symm ▸ hq)
    have hindex : r.index ≠ q.index := hF.notResult x r q hr hq
    rw [hsame q.index (by omega)]
    exact h.result q hq

/-! ## Assignments -/

lemma place_eq_ok (hkind : (c.scopes.symbol x).kind ≠ .function) (hnote : note.type.isSome)
    (hx : vars x = some p) (hplaces : d.Places vars)
    (h : place (.name note text (some x))
      (need (expr c (.name note text (some x)) .pointer)) d = .ok (place', d')) :
    ∃ r, d.storage.lookup x = some (.register r) ∧ place' = .register r ∧ d' = d := by
  obtain ⟨type, htype⟩ := isSome_iff_exists.1 hnote
  simp only [place, expr, typeOf, Expr.type?, Expr.note, htype, pure_bind] at h
  obtain ⟨found, d2, hfound, h⟩ := bind_eq_ok h
  cases hfound
  cases hlook : d.storage.lookup x with
  | some s =>
    obtain ⟨r, rfl, -⟩ := hplaces.register x p s hx hlook
    rw [hlook] at h
    cases h
    exact ⟨r, rfl, rfl, rfl⟩
  | none =>
    -- A variable without a place has no address.
    rw [hlook] at h
    obtain ⟨address, d2, haddress, -⟩ := bind_eq_ok h
    obtain ⟨o, d3, ho, -⟩ := bind_eq_ok haddress
    obtain ⟨_, -, hname⟩ := map_eq_ok ho
    simp only [name, hkind, if_false] at hname
    obtain ⟨s, d5, hstor, -⟩ := bind_eq_ok hname
    obtain ⟨-, hs⟩ := storageOf_eq_ok (hplaces.notStatic x p hx) hstor
    rw [hlook] at hs
    cases hs

lemma assign_fills (hF : Finished code dF) (c : Env)
    (hvars : ∀ x p, vars x = some p → (c.scopes.symbol x).kind ≠ .function)
    (hnote : note.type.isSome) (hnote' : note'.type.isSome) (hx : vars x = some p)
    (he : e.Scalar c.types vars p) (hd : d.Sound) (hplaces : d.Places vars)
    (hrun : expr c (.assign note (.name note' text (some x)) e) .value d = .ok (o, d')) :
    ∃ r, o = some r ∧ d.storage.lookup x = some (.register r) ∧
      Fills code dF vars d d' r (.ofPrimitive p) (e.evaluate c.types) := by
  obtain ⟨type, htype⟩ := isSome_iff_exists.1 hnote
  obtain ⟨type', htype'⟩ := isSome_iff_exists.1 hnote'
  rw [expr, htype] at hrun
  obtain ⟨_, _, htgt, hrun⟩ := bind_eq_ok hrun
  simp only [typeOf, Expr.type?, Expr.note, htype'] at htgt
  cases htgt
  obtain ⟨place, d1, hplace, hrest⟩ := bind_eq_ok hrun
  obtain ⟨r, hr, rfl, rfl⟩ := place_eq_ok (hvars x p hx) hnote' hx hplaces hplace
  obtain ⟨v, d2, hv, hrest⟩ := bind_eq_ok hrest
  have hvalue := (expr_computes hF c hvars he).need _ v d2 hd hplaces hv
  obtain ⟨_, rfl, hwrite⟩ := map_eq_ok hrest
  obtain ⟨_, d4, hmove, hwrite⟩ := bind_eq_ok hwrite
  cases hwrite
  exact ⟨r, rfl, hr, hvalue.moveInto hF (hd.storage _ (mem_of_lookup hr)) hmove⟩

lemma declare_eq_ok (hplaces : d.Places vars) (hx : vars x = some p)
    (htype : c.types.shape type = .builtin p) (h : declare c x type d = .ok (s, d')) :
    ∃ r, s = .register r ∧ d'.storage.lookup x = some (.register r) ∧
      (d' = d ∨ (r.storage ≠ .temporary ∧ r.index = d.registerCount ∧ d.storage.lookup x = none ∧
        d' = d.addVariable x r (c.scopes.symbol x).name)) := by
  obtain ⟨found, d1, hfound, h⟩ := bind_eq_ok h
  obtain ⟨rfl, rfl⟩ := storage?_eq_ok (hplaces.notStatic x p hx) hfound
  cases hlook : d1.storage.lookup x with
  | some =>
    rw [hlook] at h
    cases h
    obtain ⟨r, rfl, -⟩ := hplaces.register x p _ hx hlook
    exact ⟨r, rfl, hlook, .inl rfl⟩
  | none =>
    have hagg : c.types.isAggregate type = false := by
      simp [TypeTable.isAggregate, TypeTable.isArray, TypeTable.isRecord, htype]
    rw [hlook] at h
    simp only [hagg, Bool.false_eq_true, if_false] at h
    obtain ⟨_, _, hget, h⟩ := bind_eq_ok h
    cases hget
    obtain ⟨r, d2, hr, h⟩ := bind_eq_ok h
    obtain ⟨rfl, rfl⟩ := register_eq_ok hr
    cases h
    refine ⟨_, rfl, by simp, .inr ⟨?_, rfl, rfl, rfl⟩⟩
    split <;> simp

/-- A new variable keeps to its own register, and what is no integer variable lives anywhere else. -/
lemma places_of_storage (hplaces : d.Places vars) (hd : d.Sound)
    (hstor : d'.storage = (x, s) :: d.storage) (hsyms : d'.statics.symbols = d.statics.symbols)
    (hres : d'.returnRegister = d.returnRegister)
    (hs : (∃ r, s = .register r ∧ r.index = d.registerCount ∧ r.storage ≠ .temporary) ∨
      (∀ r, s ≠ .register r) ∧ vars x = none) : d'.Places vars := by
  have hlook (y : SymbolId) : d'.storage.lookup y = if y = x then some s else d.storage.lookup y := by
    rw [hstor, List.lookup_cons]
    by_cases hyx : y = x
    · simp [hyx]
    · have hbeq : (y == x) = false := by simpa using hyx
      rw [hbeq, if_neg hyx]
  have hbound (y : SymbolId) (u : Register) (hu : d.storage.lookup y = some (.register u)) :
      u.index < d.registerCount :=
    hd.storage (y, .register u) (mem_of_lookup hu)
  -- A register that is looked up is the new one, or lies below it.
  have hcases (y : SymbolId) (u : Register) (hu : d'.storage.lookup y = some (.register u)) :
      y = x ∧ u.index = d.registerCount ∨ d.storage.lookup y = some (.register u) := by
    rw [hlook] at hu
    split at hu
    · next hyx =>
      obtain ⟨r, rfl, hr, -⟩ | ⟨hnone, -⟩ := hs
      · cases hu
        exact .inl ⟨hyx, hr⟩
      · exact absurd (some.inj hu) (hnone u)
    · exact .inr hu
  refine ⟨fun y q u hy hu => ?_, ?_, fun y z u v hu hv heq => ?_, fun y u q hu hq => ?_⟩
  · rw [hlook] at hu
    split at hu
    · next hyx =>
      cases hu
      obtain ⟨r, rfl, -, hclass⟩ | ⟨-, hnone⟩ := hs
      · exact ⟨r, rfl, hclass⟩
      · rw [hyx, hnone] at hy
        cases hy
    · exact hplaces.register y q u hy hu
  · rw [hsyms]
    exact hplaces.notStatic
  · obtain ⟨rfl, hu'⟩ | hu' := hcases y u hu <;> obtain ⟨rfl, hv'⟩ | hv' := hcases z v hv
    · rfl
    · have := hbound z v hv'
      omega
    · have := hbound y u hu'
      omega
    · exact hplaces.injective y z u v hu' hv' heq
  · rw [hres] at hq
    have hbelow : q.index < d.registerCount := hd.result q hq
    obtain ⟨-, hu'⟩ | hu' := hcases y u hu
    · omega
    · exact hplaces.notResult y u q hu' hq

lemma declare_fills (hF : Finished code dF) (c : Env)
    (hvars : ∀ x p, vars x = some p → (c.scopes.symbol x).kind ≠ .function)
    (hnote : note.type.isSome) (htype : (c.scopes.symbol x).type = some type)
    (hshape : c.types.shape type = .builtin p) (hx : vars x = some p) (he : e.Scalar c.types vars p)
    (hd : d.Sound) (hplaces : d.Places vars)
    (hrun : expr c (.declare note x (some e)) .value d = .ok (o, d')) :
    ∃ d1 r, d1.instructions.size = d.instructions.size ∧ d.Leads d1 ∧ d1.Sound ∧ d1.Places vars ∧
      d1.storage.lookup x = some (.register r) ∧
      Fills code dF vars d1 d' r (.ofPrimitive p) (e.evaluate c.types) := by
  obtain ⟨noteType, hnoteType⟩ := isSome_iff_exists.1 hnote
  simp only [expr, hnoteType] at hrun
  obtain ⟨⟨place, placeType⟩, d1, hplace, hrest⟩ := bind_eq_ok hrun
  simp only [declaredPlace, htype] at hplace
  obtain ⟨s, d2, hdeclare, hplace⟩ := bind_eq_ok hplace
  have hd2 : d2.Sound := (declare_safe c x type hd s d2 hdeclare).2
  obtain ⟨r, rfl, hr, hcases⟩ := declare_eq_ok hplaces hx hshape hdeclare
  obtain ⟨hsize, hleads, hplaces2⟩ :
      d2.instructions.size = d.instructions.size ∧ d.Leads d2 ∧ d2.Places vars := by
    obtain rfl | ⟨hclass, hindex, hnone, rfl⟩ := hcases
    · exact ⟨rfl, .refl _, hplaces⟩
    · exact ⟨rfl, .addVariable hnone hindex _,
        places_of_storage hplaces hd rfl rfl rfl (.inl ⟨r, rfl, hindex, hclass⟩)⟩
  cases hplace
  obtain ⟨v, d3, hv, hrest⟩ := bind_eq_ok hrest
  have hvalue := (expr_computes hF c hvars he).need _ v d3 hd2 hplaces2 hv
  obtain ⟨_, rfl, hwrite⟩ := map_eq_ok hrest
  obtain ⟨_, d5, hmove, hwrite⟩ := bind_eq_ok hwrite
  cases hwrite
  exact ⟨_, r, hsize, hleads, hd2, hplaces2, hr,
    hvalue.moveInto hF (hd2.storage _ (mem_of_lookup hr)) hmove⟩

/-! ## Cases -/

lemma instruction_of_add (hF : Finished code dF) (hd : d.Sound) (hleads : (d.add i).Leads dF) :
    code[d.instructions.size]? = some i := by
  refine hF.instruction hleads (by simp [Draft.add]) fun label hmem => ?_
  exact absurd (hd.pending _ hmem) (by simp)

/-- The label of the first case whose constant a test accepts, or else another one. -/
def caseLabel (accepts : Int64 → Bool) (otherwise : String) (cases : List (String × Int64)) :
    String :=
  match cases.find? (accepts ·.2) with
  | some (name, _) => name
  | none => otherwise

/-- Cases are tested one after the other, up to the first one whose constant agrees. -/
lemma dispatch_runs (hF : Finished code dF) (hint : type.IsInteger) (hd : d.Sound)
    (hsel : selector.index < d.registerCount) (h : dispatch selector type cases d = .ok ((), d')) :
    Extends d d' ∧ ∀ otherwise d'', jump otherwise d' = .ok ((), d'') → d''.Leads dF → ∀ ρ, ∃ pc ρ',
      dF.labels.find? (caseLabel (fun n => type.reduce n.toInt == type.read (ρ selector.index))
        otherwise cases) = some pc ∧
      (∀ k, ¬(d.registerCount ≤ k ∧ k < d'.registerCount) → ρ' k = ρ k) ∧
      Relation.TransGen (Local.Step code) (d.instructions.size, ρ) (pc, ρ') := by
  induction cases generalizing d with
  | nil =>
    cases h
    refine ⟨⟨hd, .refl _, rfl⟩, fun otherwise d'' hjump hleads ρ => ?_⟩
    obtain ⟨offset, hoff, hstep⟩ := jump_step hF hjump hleads
    exact ⟨offset, ρ, hoff, fun _ _ => rfl, .single (hstep ρ)⟩
  | cons case _ ih =>
    obtain ⟨label, constant⟩ := case
    obtain ⟨isEqual, d1, hres, h⟩ := bind_eq_ok h
    obtain ⟨t, d2, htemp, hres⟩ := bind_eq_ok hres
    obtain ⟨rfl, rfl, h2⟩ := register_ext hd htemp
    obtain ⟨_, d3, hemit, hres⟩ := bind_eq_ok hres
    have hd3 := (emit_ordinary_safe h2.sound (by trivial)
      (by simp [Instruction.registers]; omega) _ _ hemit).2
    obtain rfl := emit_eq_ok hemit
    cases hres
    obtain ⟨_, d4, hbr, h⟩ := bind_eq_ok h
    have h4 := branch_ext hd3 rfl (by rintro _ ⟨⟩; simp) hbr
    have h3 := h2.trans ⟨hd3, .add _ _, rfl⟩
    obtain ⟨hext, hrest⟩ := ih h4.sound (hsel.trans_le (h3.trans h4).leads.registers) h
    refine ⟨h3.trans (h4.trans hext), fun otherwise d'' hjump hleads ρ => ?_⟩
    have hF4 := hext.leads.trans ((jump_ext hext.sound hjump).leads.trans hleads)
    have hfirst := instruction_of_add hF h2.sound (h4.leads.trans hF4)
    obtain ⟨offset, hoff, hstep⟩ := branch_step hF false OperandType.isInteger_bool hbr hF4
    have hcompare : Local.Yields code (d.instructions.size, ρ) (d.instructions.size + 1)
        (d.registerCount = ·) ⟨d.registerCount, .temporary⟩ .bool
        (.ok (Relation.eq.test (type.read (ρ selector.index)) (type.read constant.toUInt64)).toInt) :=
      Local.yields_compare hfirst rfl rfl rfl rfl (.immediate rfl rfl hint) hint
    obtain ⟨ρ1, hruns, hread, hsame⟩ := hcompare
    have hcount : d.registerCount + 1 ≤ d'.registerCount := (h4.trans hext).leads.registers
    have hkeep (k : Nat) (hk : ¬(d.registerCount ≤ k ∧ k < d'.registerCount)) : ρ1 k = ρ k :=
      hsame k (by omega)
    have hstep := hstep ρ1
    rw [hread, OperandType.read_toUInt64 hint constant] at hstep
    by_cases heq : type.reduce constant.toInt = type.read (ρ selector.index)
    · refine ⟨offset, ρ1, ?_, hkeep, .tail' hruns ?_⟩
      · simpa [caseLabel, heq] using hoff
      · simpa [← heq, Relation.test] using hstep
    · obtain ⟨pc, ρ2, hpc, hkeep2, hruns2⟩ := hrest otherwise d'' hjump hleads ρ1
      rw [hkeep _ (by omega)] at hpc
      refine ⟨pc, ρ2, ?_, fun k hk => ?_, .trans_right (hruns.tail ?_) hruns2⟩
      · simpa [caseLabel, heq] using hpc
      · refine (hkeep2 k fun h => hk ⟨?_, h.2⟩).trans (hkeep k hk)
        exact (h3.trans h4).leads.registers.trans h.1
      · have hne : (type.read (ρ selector.index) == type.reduce constant.toInt) = false := by
          simpa using fun h => heq h.symm
        simpa [Relation.test, hne] using hstep

end Code.Gen

end CompilerCore
