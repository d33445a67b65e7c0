import CompilerCore.Proofs.Code.Accepted

/-!
# Operands that are read late

The code of an operator evaluates its operands from left to right.  A left operand that is a variable
in a register, or a cast of one that changes nothing, is handed on as that register, which the operator
reads after the code of the right operand.  If the right operand assigns the variable, the operator gets
the new value.  Every other left operand has been copied by then and keeps its value.
-/

namespace CompilerCore

open CompilerCore.Code CompilerCore.Machine OperandType

/-- A variable `g = 1` and the functions `i32 own(i32 x) { return x + (x = 5); }` and
`i32 shared() { return g + (g = 5); }`. -/
def readings : Program × Session :=
  (Session.start {}).build "readings" do
    let _ ← Build.global "g" (some TypeId.i32) (some (← Demo.int 1))
    let reading (name : String) : Build (List Stmt) := do
      let change ← Demo.assign (← Demo.ident name) (← Demo.int 5)
      return [← Demo.giveBack (← Demo.binary (.arith .add) (← Demo.ident name) change)]
    let _ ← Build.function "own" TypeId.i32 [{ name := "x", type := TypeId.i32 }] (reading "x")
    Build.function "shared" TypeId.i32 [] (reading "g")

def acceptedReadings : Analysis.Outcome := readings.1.analyze {} readings.2.types []

namespace Code.Gen

variable {code : Array Instruction} {dF : Draft} {vars : SymbolId → Option Primitive}
  {d d' d'' : Draft} {r target : Register} {p : Primitive} {σ : SymbolId → Int} {ρ : Registers}

/-- Code that leaves a value in a register and values in the variables that are elsewhere, or raises a
fault. -/
def Performs (code : Array Instruction) (dF : Draft) (vars : SymbolId → Option Primitive)
    (here : Nat × Registers) (stop : Nat) (target : Register) (type : OperandType) :
    Except Fault (Int × (SymbolId → Int)) → Prop
  | .ok (v, σ) => ∃ ρ, Local.Runs code here (stop, ρ) ∧ type.read (ρ target.index) = v ∧
      ∀ x p r, vars x = some p → dF.storage.lookup x = some (.register r) →
        r.index ≠ target.index → (ofPrimitive p).read (ρ r.index) = σ x
  | .error fault => ∃ there, Local.Runs code here there ∧ Local.Faults code there fault

/-- What an operator does whose right operand assigns a variable, wherever its result goes.  The
operands are evaluated from left to right; the left one has the assigned value if it is the variable
itself, and otherwise the value that it had before. -/
theorem operation_reads_late (hF : Finished code dF) (c : Env)
    (hvars : ∀ x p, vars x = some p → (c.scopes.symbol x).kind ≠ .function)
    (hplacesF : dF.Places vars) {note note₁ note₂ : Note} {op : ArithOp} {lhs e : Expr} {text : String}
    {x : SymbolId} (hnote : c.types.IsPrimitive note.type p) (hnote₁ : c.types.IsPrimitive note₁.type p)
    (hnote₂ : note₂.type.isSome) (hx : vars x = some p) (hl : lhs.Scalar c.types vars p)
    (he : e.Scalar c.types vars p) (hd : d.Sound) (hplaces : d.Places vars) {o : Option Register}
    (hrun : expr c (.binary note (.arith op) lhs (.assign note₁ (.name note₂ text (some x)) e))
      .value d = .ok (o, d')) :
    ∃ r, o = some r ∧ ∀ target d'', Delivered d' r target d'' → d''.Leads dF →
      ∀ σ ρ, Agrees vars dF σ ρ →
        Performs code dF vars (d.instructions.size, ρ) d'.instructions.size target (.ofPrimitive p) do
          let u ← lhs.evaluate c.types σ
          let v ← e.evaluate c.types σ
          let u' := if lhs.handed? c.types = some x then v else u
          let w ← (ofPrimitive p).arith op u' v
          return (w, Function.update σ x v) := by
  obtain ⟨id, hid, hshape⟩ := hnote
  obtain ⟨l, hltype, hlshape⟩ := hl.isPrimitive
  obtain ⟨q, hrtype, hrshape⟩ := hnote₁
  have hint := isInteger_ofPrimitive hl.isInteger
  have hrhs : (Expr.assign note₁ (.name note₂ text (some x)) e).type? = some q := hrtype
  rw [expr_arith hid hltype hlshape hrhs hrshape] at hrun
  obtain ⟨_, rfl, hcode⟩ := map_eq_ok hrun
  -- The left operand, the register of the result and the assignment.
  obtain ⟨left, d₁, hleft, hrun⟩ := bind_eq_ok hcode
  have h := (expr_computes hF c hvars hl).need d left d₁ hd hplaces hleft
  obtain ⟨destination, d₂, htemp, hrun⟩ := bind_eq_ok hrun
  obtain ⟨rfl, rfl, h₂⟩ := register_ext h.sound htemp
  obtain ⟨right, d₃, hright, hrun⟩ := bind_eq_ok hrun
  obtain ⟨assigned, _, hassign, hneed⟩ := bind_eq_ok hright
  obtain ⟨s, rfl, hs, h'⟩ := assign_fills hF c hvars (by rw [hrtype]; rfl) hnote₂ hx he h₂.sound
    ((h.toExtends.trans h₂).places hplaces) hassign
  cases hneed
  obtain ⟨_, d₄, hemit, hrun⟩ := bind_eq_ok hrun
  obtain rfl := emit_eq_ok hemit
  cases hrun
  refine ⟨_, rfl, fun target d'' hdel hleads σ ρ hagrees => ?_⟩
  obtain ⟨hleads₃, hop⟩ := last_of_delivered hF h'.sound hdel rfl hleads
  have hleads₁ : d₁.Leads dF := h₂.leads.trans (h'.leads.trans hleads₃)
  have hs' : d.storage.lookup x = some (.register right) := by rw [← h.storage]; exact hs
  have hbound : right.index < d.registerCount := hd.storage _ (mem_of_lookup hs')
  have hfirst := h.yields left d₁ .kept hleads₁ σ ρ hagrees
  cases hu : lhs.evaluate c.types σ with
  | error fault => rwa [hu] at hfirst
  | ok u =>
  rw [hu] at hfirst
  obtain ⟨ρ₁, hruns₁, hread₁, hsame₁⟩ := hfirst
  have hagrees₁ : Agrees vars dF σ ρ₁ :=
    hagrees.of_same hd hleads₁ h.storage fun k hk => hsame₁ k (by simpa [Touched] using hk)
  have hsecond := h'.yields hleads₃ σ ρ₁ hagrees₁
  cases hv : e.evaluate c.types σ with
  | error fault =>
    rw [hv] at hsecond
    obtain ⟨there, hruns₂, hfaults⟩ := hsecond
    exact ⟨there, hruns₁.trans hruns₂, hfaults⟩
  | ok v =>
  rw [hv] at hsecond
  obtain ⟨ρ₂, hruns₂, hread₂, hsame₂⟩ := hsecond
  have hagrees₂ : Agrees vars dF (Function.update σ x v) ρ₂ :=
    Agrees.update hagrees₁ hplacesF h₂.sound hleads₃ h'.storage hx
      (hleads₃.storage _ _ (h'.storage ▸ hs)) hread₂ hsame₂
  -- The assignment changes the left operand only if both are in one register.
  have hlate : (ofPrimitive p).read (ρ₂ left.index) =
      if lhs.handed? c.types = some x then v else u := by
    have hkeep (hne : left.index ≠ right.index) : ρ₂ left.index = ρ₁ left.index := by
      have hleftBound := h.bound
      refine hsame₂ _ ?_
      simp only [Draft.registerCount_addRegister]
      omega
    have hhands := h.hands
    cases hhand : lhs.handed? c.types with
    | none =>
      rw [hhand] at hhands
      rw [hkeep (hbound.trans_le hhands).ne', hread₁, if_neg (by simp)]
    | some y =>
      rw [hhand] at hhands
      by_cases hyx : y = x
      · subst hyx
        obtain rfl := Storage.register.inj (Option.some.inj (hhands.symm.trans hs'))
        rw [hread₂, if_pos rfl]
      · have hne := fun heq => hyx (hplaces.injective y x left right hhands hs' heq)
        rw [hkeep hne, hread₁, if_neg (by simpa using hyx)]
  obtain ⟨i, hi, hopcode, htype, hdest, hsources⟩ : ∃ i, code[d₃.instructions.size]? = some i ∧
      i.opcode = .arith op ∧ i.type = .ofPrimitive p ∧ i.destination = some target ∧
      i.sources = [left, right] := ⟨_, hop, rfl, TypeTable.operand_of_builtin hshape, rfl, rfl⟩
  have hthird : Local.Yields code (d₃.instructions.size, ρ₂) (d₃.instructions.size + 1)
      (target.index = ·) target i.type
      (i.type.arith op (i.type.read (ρ₂ left.index)) (i.type.read (ρ₂ right.index))) :=
    Local.yields_arith hi hdest rfl hopcode hsources (.register hsources) (htype ▸ hint)
  rw [htype, hlate, hread₂] at hthird
  have hruns := hruns₁.trans hruns₂
  show Performs _ _ _ _ _ _ _ ((ofPrimitive p).arith op _ v >>= _)
  cases hw : (ofPrimitive p).arith op
      (if lhs.handed? c.types = some x then v else u) v with
  | error fault =>
    rw [hw] at hthird
    obtain ⟨there, hruns₃, hfaults⟩ := hthird
    exact ⟨there, hruns.trans hruns₃, hfaults⟩
  | ok w =>
    rw [hw] at hthird
    obtain ⟨ρ₃, hruns₃, hread₃, hsame₃⟩ := hthird
    refine ⟨ρ₃, hruns.trans (Draft.size_add .. ▸ hruns₃), hread₃, fun y q' t hy ht hne => ?_⟩
    rw [hsame₃ _ hne.symm]
    exact hagrees₂ y q' t hy ht

/-- In `own`, the sum of a parameter that is 1 and an assignment of 5 to it is 10. -/
theorem operation_reads_late_own :
    let c : Env := { scopes := readings.1.scopes, types := readings.2.types }
    let note : Note := { token := .synthesized, type := some TypeId.i32 }
    let x : Expr := .name note "x" (some 2)
    let d : Draft := { name := "own", statics := {}, registerCount := 1
                       storage := [(2, .register ⟨0, .parameter⟩)] }
    let vars : SymbolId → Option Primitive := fun y => if y = 2 then some (.signed .w32) else none
    ∃ r d', expr c (.binary note (.arith .add) x (.assign note x (.literal note (.integer 5))))
        .value d = .ok (some r, d') ∧
      Performs d'.instructions d' vars (0, fun _ => 1) d'.instructions.size r
        (.ofPrimitive (.signed .w32)) (.ok (10, Function.update (fun _ => 1) 2 5)) := by
  intro c note x d vars
  obtain ⟨⟨o, d'⟩, ho, hpending, hstorage, hsymbols, hresult⟩ : ∃ made,
      expr c (.binary note (.arith .add) x (.assign note x (.literal note (.integer 5)))) .value d =
        .ok made ∧ made.2.pendingBranches = [] ∧ made.2.storage = d.storage ∧
        made.2.statics.symbols = [] ∧ made.2.returnRegister = none := by
    decide +kernel
  dsimp only at hpending hstorage hsymbols hresult
  have hshape : c.types.IsPrimitive note.type (.signed .w32) := ⟨_, rfl, by decide +kernel⟩
  have hd : d.Sound :=
    { empty_sound "own" ⟨by simp, by simp⟩ with
      storage := by simp [d, Draft.HasStorage]
      fits := by simp [d]
      result := nofun
      parameters := Nat.zero_le _ }
  have hplaces (d₀ : Draft) (h : d₀.storage = d.storage) (h' : d₀.statics.symbols = [])
      (h'' : d₀.returnRegister = none) : d₀.Places vars := by
    refine ⟨fun y q s hy hs => ?_, by simp [h'], fun y z r r' hr hr' _ => ?_, by simp [h'']⟩
    all_goals grind
  have hkind (y : SymbolId) (q : Primitive) (hy : vars y = some q) :
      (c.scopes.symbol y).kind ≠ .function := by
    obtain rfl : y = 2 := by grind
    decide +kernel
  have hF : Finished d'.instructions d' := ⟨by simp [hpending], fun _ _ _ h => h⟩
  obtain ⟨r, rfl, hperforms⟩ := operation_reads_late hF c hkind
    (hplaces d' hstorage hsymbols hresult) hshape hshape rfl rfl (.name hshape rfl rfl)
    (.literal hshape rfl rfl) hd (hplaces d rfl rfl rfl) ho
  refine ⟨r, d', ho, ?_⟩
  have hone : (ofPrimitive (.signed .w32)).read 1 = 1 := by decide +kernel
  have hagrees : Agrees vars d' (fun _ => 1) fun _ => 1 := by
    intro y q s hy _
    obtain rfl : q = .signed .w32 := by grind
    exact hone
  have hfive : (Expr.literal note (.integer 5)).evaluate c.types (fun _ => 1) = .ok 5 := by
    decide +kernel
  have hten : (ofPrimitive (.signed .w32)).arith .add 5 5 = .ok 10 := by decide +kernel
  have h := hperforms r d' .kept (.refl _) (fun _ => 1) _ hagrees
  have hread : (Expr.name note "x" (some 2)).evaluate c.types (fun _ => 1) = .ok 1 := rfl
  have hhanded : (Expr.name note "x" (some 2)).handed? c.types = some 2 := rfl
  simp only [hread, hfive, hhanded, bind, Except.bind, if_true, hten] at h
  exact h

end Code.Gen

/-- A parameter is read after the assignment, a variable in memory before it. -/
theorem Program.read_late_or_early : acceptedReadings.result = .ok 1 ∧
    ∃ m, acceptedReadings.program.compile acceptedReadings.types "readings" = .ok m ∧
      ((State.start 64).run m 100 "own" [1]).1 = .ok 10 ∧
      ((State.start 64).run m 100 "shared" []).1 = .ok 6 := by
  decide +kernel

end CompilerCore
