import CompilerCore.Proofs.Code.Simulation
import CompilerCore.Proofs.Machine.Entry

/-!
# Compiled functions on integers

The code of a function whose body declares, assigns, tests and returns integers does what the body
means: a run of the function on arguments ends as the run of its body does that starts with the low
bytes of the arguments in the parameters and zero in all other variables.
-/

namespace CompilerCore

open CompilerCore.Code CompilerCore.Machine List Option Program OperandType

/-! ## Bodies -/

namespace Stmt.Scalar

variable {c : Env} {vars : SymbolId → Option Primitive} {result : TypeId} {labels : String → Prop}
  {s : Stmt}

lemma not_cleanup (h : s.Scalar c vars result labels) :
    s.All fun node => ∀ tok body, node ≠ .cleanup tok body := by
  induction h with
  | block _ ih | seq _ ih => exact all_iff.2 ⟨nofun, ih⟩
  | branch _ _ ih | switch _ _ _ _ _ ih => exact all_iff.2 ⟨nofun, forall_mem_singleton.2 ih⟩
  | branchElse _ _ _ ihYes ihNo =>
    exact all_iff.2 ⟨nofun, forall_mem_cons.2 ⟨ihYes, forall_mem_singleton.2 ihNo⟩⟩
  | _ => exact all_iff.2 ⟨nofun, nofun⟩

lemma cleanup?_eq_none (h : s.Scalar c vars result labels) : Gen.cleanup? s = none := by
  refine findSome?_eq_none_iff.2 fun node hnode => ?_
  split
  · exact absurd rfl (h.not_cleanup _ hnode _ _)
  · rfl

lemma isSome_seek (h : s.Scalar c vars result labels) {label : String} (hlabel : label ∈ s.labels)
    (rest : List Stmt) : (Goto.seek label s rest).isSome = true := by
  have hlist {ss : List Stmt}
      (ih : ∀ s ∈ ss, label ∈ s.labels → ∀ rest, (Goto.seek label s rest).isSome = true)
      (hlabel : label ∈ labelsIn ss) (rest : List Stmt) :
      (Goto.seekIn label ss rest).isSome = true := by
    induction ss with
    | nil => cases hlabel
    | cons s ss ihList =>
      rw [forall_mem_cons] at ih
      rw [Goto.seekIn, orElse_eq_orElse, orElse_eq_or, isSome_or, Bool.or_eq_true]
      exact (mem_append.1 hlabel).imp (ih.1 · _) (ihList ih.2)
  induction h generalizing rest with
  | block _ ih | seq _ ih => exact hlist ih hlabel rest
  | branch _ _ ih => exact ih hlabel rest
  | branchElse _ _ _ ihYes ihNo =>
    rw [Goto.seek, orElse_eq_orElse, orElse_eq_or, isSome_or, Bool.or_eq_true]
    exact (mem_append.1 hlabel).imp (ihYes · rest) (ihNo · rest)
  | label =>
    rw [Goto.seek, if_pos (mem_singleton.1 hlabel).symm]
    rfl
  | switch _ _ _ _ _ ih =>
    simp only [Stmt.labels, mem_cons, mem_append, not_mem_nil, or_false] at hlabel
    rw [Goto.seek]
    split
    · rfl
    · next hhead =>
      rw [orElse_eq_orElse, orElse_eq_or, isSome_or, Bool.or_eq_true]
      obtain hlabel | hlabel | hlabel := hlabel
      · exact absurd hlabel.symm hhead
      · exact .inl (ih hlabel _)
      · exact .inr (by rw [if_pos hlabel.symm]; rfl)
  | _ => cases hlabel

end Stmt.Scalar

/-! ## Functions -/

/-- Variables that hold integers: they have a primitive type and are no references. -/
structure Code.Env.Integers (c : Env) (vars : SymbolId → Option Primitive) : Prop where
  kind : ∀ x p, vars x = some p → (c.scopes.symbol x).kind ≠ .function
  value : ∀ x p, vars x = some p → (c.scopes.symbol x).isReferenceParameter = false
  type : ∀ x p, vars x = some p →
    ∃ type, (c.scopes.symbol x).type = some type ∧ c.types.shape type = .builtin p

/-- A function whose body is made of statements on integers and jumps to its own labels. -/
structure Function.Scalar (c : Env) (vars : SymbolId → Option Primitive) (f : Function) : Prop where
  result : c.types.isAggregate f.returnType = false
  body : f.body.Scalar c vars f.returnType (· ∈ f.body.labels)

variable {f : Function} {p : Program} {types : TypeTable}

/-- The values of the variables when a function starts: those of the arguments, cut to the types of
the parameters, and zero elsewhere. -/
def Function.entry (f : Function) (vars : SymbolId → Option Primitive) (arguments : List UInt64) :
    SymbolId → Int := fun x =>
  match vars x, (f.parameters.zip arguments).reverse.lookup x with
  | some p, some w => (ofPrimitive p).read w
  | _, _ => 0

namespace Code.Gen

variable {c : Env} {vars : SymbolId → Option Primitive} {d d' : Draft}

/-! ## Parameters -/

/-- What the code for parameters adds to a draft. -/
structure AddsParameters (vars : SymbolId → Option Primitive) (ids : List SymbolId) (d d' : Draft) :
    Prop where
  instructions : d'.instructions = d.instructions
  result : d'.returnRegister = d.returnRegister
  aggregate : d'.returnsAggregate = d.returnsAggregate
  count : d'.registerCount = d.registerCount + ids.length
  parameters : d'.parameters.length = d.parameters.length + ids.length
  places : d.Sound → d.Places vars → d'.Places vars
  /-- A variable is the last parameter of its name, or where it was. -/
  storage : ∀ x p arguments, vars x = some p → arguments.length = ids.length →
    (∃ r w, d'.storage.lookup x = some (.register r) ∧ d.registerCount ≤ r.index ∧
      arguments[r.index - d.registerCount]? = some w ∧
      (ids.zip arguments).reverse.lookup x = some w) ∨
    (d'.storage.lookup x = d.storage.lookup x ∧
      (ids.zip arguments).reverse.lookup x = (none : Option UInt64))

lemma parameter_adds (hvars : c.Integers vars) {id : SymbolId}
    (h : parameter c id d = .ok ((), d')) : AddsParameters vars [id] d d' := by
  unfold parameter at h
  dsimp only at h
  cases htype : (c.scopes.symbol id).type with
  | none =>
    rw [htype] at h
    cases h
  | some type =>
    rw [htype] at h
    cases h
    -- An integer variable is no reference and no aggregate, so it gets the register itself.
    have hdirect (p : Primitive) (hp : vars id = some p) :
        ((c.scopes.symbol id).isReferenceParameter || c.types.isAggregate type) = false := by
      obtain ⟨type', htype', hshape⟩ := hvars.type id p hp
      obtain rfl := some.inj (htype.symm.trans htype')
      simp [hvars.value id p hp, TypeTable.isAggregate, TypeTable.isArray, TypeTable.isRecord, hshape]
    refine ⟨rfl, rfl, rfl, rfl, by simp, fun hd hplaces => ?_, fun x p args hx hlen => ?_⟩
    · refine places_of_storage hplaces hd rfl rfl rfl ?_
      cases hid : vars id with
      | none =>
        by_cases hindirect : ((c.scopes.symbol id).isReferenceParameter ||
            c.types.isAggregate type) = true
        · exact .inr ⟨by simp [hindirect], rfl⟩
        · exact .inl ⟨⟨d.registerCount, .parameter⟩, by simp [hindirect], rfl, by simp⟩
      | some p => exact .inl ⟨⟨d.registerCount, .parameter⟩, by simp [hdirect p hid], rfl, by simp⟩
    · obtain ⟨w, rfl⟩ := length_eq_one_iff.1 hlen
      by_cases hxid : x = id
      · subst hxid
        exact .inl ⟨⟨d.registerCount, .parameter⟩, w, by simp [hdirect p hx], le_rfl, by simp,
          by simp⟩
      · have hbeq : (x == id) = false := by simpa using hxid
        exact .inr ⟨by simp [lookup_cons, hbeq], by simp [lookup_cons, hbeq]⟩

lemma parameters_adds (hvars : c.Integers vars) {ids : List SymbolId} (hd : d.Sound)
    (h : parameters c ids d = .ok ((), d')) : AddsParameters vars ids d d' := by
  induction ids generalizing d with
  | nil =>
    cases h
    exact ⟨rfl, rfl, rfl, rfl, rfl, fun _ h => h, fun _ _ _ _ _ => .inr ⟨rfl, rfl⟩⟩
  | cons id ids ih =>
    obtain ⟨_, d1, hfirst, h⟩ := bind_eq_ok h
    have hd1 := (parameter_safe c id hd _ _ hfirst).2
    have hone := parameter_adds hvars hfirst
    have hrest := ih hd1 h
    have hcount : d1.registerCount = d.registerCount + 1 := hone.count
    refine ⟨hrest.instructions.trans hone.instructions, hrest.result.trans hone.result,
      hrest.aggregate.trans hone.aggregate, ?_, ?_, fun hd hplaces => hrest.places hd1
        (hone.places hd hplaces), fun x p args hx hlen => ?_⟩
    · rw [hrest.count, hcount, length_cons]
      omega
    · rw [hrest.parameters, hone.parameters]
      simp only [length_cons, length_nil]
      omega
    · obtain ⟨a, args, rfl⟩ := exists_cons_of_length_eq_add_one hlen
      have hlength' : args.length = ids.length := by simpa using hlen
      rw [zip_cons_cons, reverse_cons, lookup_append]
      obtain ⟨r, w, hr, hle, hw, hlook⟩ | ⟨hr, hlook⟩ := hrest.storage x p args hx hlength'
      · refine .inl ⟨r, w, hr, by omega, ?_, by rw [hlook]; rfl⟩
        obtain ⟨k, hk⟩ : ∃ k, r.index - d.registerCount = k + 1 ∧ r.index - d1.registerCount = k :=
          ⟨r.index - d1.registerCount, by omega, rfl⟩
        rw [hk.1, getElem?_cons_succ, ← hk.2]
        exact hw
      · obtain ⟨r, w, hr', hle, hw, hlookup'⟩ | ⟨hr', hlookup'⟩ := hone.storage x p [a] hx rfl
        · refine .inl ⟨r, w, hr.trans hr', hle, ?_, by rw [hlook]; exact hlookup'⟩
          obtain hzero : r.index - d.registerCount = 0 := by
            by_contra hne
            rw [getElem?_eq_none (by simp; omega)] at hw
            cases hw
          rw [hzero] at hw ⊢
          exact hw
        · exact .inr ⟨hr.trans hr', by rw [hlook]; exact hlookup'⟩

/-! ## The method of a function -/

lemma resultRegister_eq_ok (hagg : c.types.isAggregate type = false)
    (h : resultRegister c type d = .ok ((), d')) :
    d'.instructions = d.instructions ∧ d'.storage = d.storage ∧ d'.statics = d.statics ∧
      d'.returnsAggregate = d.returnsAggregate ∧ d'.parameters = d.parameters ∧
      d'.returnType = c.operand type ∧ d.registerCount ≤ d'.registerCount ∧
      (d'.returnRegister = d.returnRegister ∧ (c.operand type).isVoid = true ∨
        d'.returnRegister = some ⟨d.registerCount, .localVar⟩) := by
  obtain ⟨_, d1, hmodify, h⟩ := bind_eq_ok h
  cases hmodify
  simp only [hagg, Bool.false_eq_true, if_false] at h
  split at h
  · next hvoid =>
    cases h
    exact ⟨rfl, rfl, rfl, rfl, rfl, rfl, le_rfl, .inl ⟨rfl, hvoid⟩⟩
  · cases h
    exact ⟨rfl, rfl, rfl, rfl, rfl, rfl, Nat.le_succ _, .inr rfl⟩

lemma prologue_ready (hvars : c.Integers vars) {name : String} (hstat : statics.Sound)
    (hsyms : ∀ x p, vars x = some p → statics.symbols.lookup x = none)
    (hres : c.types.isAggregate f.returnType = false)
    (hparams : parameters c f.parameters { name, statics, addressTaken := addressTaken f.body } =
      .ok ((), d1))
    (h : resultRegister c f.returnType d1 = .ok ((), d2)) :
    d2.Ready vars ∧ d2.instructions.size = 0 ∧ d2.parameters.length = f.parameters.length ∧
      f.parameters.length ≤ d2.registerCount ∧
      (∀ q ∈ d2.returnRegister, f.parameters.length ≤ q.index) ∧
      (∀ p, c.types.shape f.returnType = .builtin p → p.isInteger = true →
        d2.returnType = .ofPrimitive p ∧ d2.returnRegister.isSome) ∧
      ∀ x p args, vars x = some p → args.length = f.parameters.length →
        (∃ r w, d2.storage.lookup x = some (.register r) ∧ args[r.index]? = some w ∧
          (f.parameters.zip args).reverse.lookup x = some w) ∨
        (d2.storage.lookup x = none ∧
          (f.parameters.zip args).reverse.lookup x = (none : Option UInt64)) := by
  have hd0 : ({ name, statics, addressTaken := addressTaken f.body } : Draft).Sound :=
    { empty_sound name hstat with }
  have hplaces0 : ({ name, statics, addressTaken := addressTaken f.body } : Draft).Places vars :=
    ⟨nofun, hsyms, nofun, nofun⟩
  have hadds := parameters_adds hvars hd0 hparams
  have hd1 := (parameters_safe c f.parameters hd0 _ _ hparams).2
  have hd2 := (resultRegister_safe c f.returnType hd1 _ _ h).2
  have hplaces1 := hadds.places hd0 hplaces0
  have hcount : d1.registerCount = f.parameters.length := by
    rw [hadds.count]
    exact Nat.zero_add _
  obtain ⟨hcode, hstor, hstatics2, hagg, hparameters2, htype, hregs, hreg⟩ :=
    resultRegister_eq_ok hres h
  refine ⟨⟨hd2, ⟨?_, ?_, ?_, ?_⟩, ?_⟩, ?_, ?_, ?_, ?_, ?_, ?_⟩
  · rw [hstor]
    exact hplaces1.register
  · rw [hstatics2]
    exact hplaces1.notStatic
  · rw [hstor]
    exact hplaces1.injective
  · intro x r q hr hq
    rw [hstor] at hr
    have hbound : r.index < d1.registerCount := hd1.storage (x, .register r) (mem_of_lookup hr)
    obtain ⟨hsame, -⟩ | hnew := hreg
    · exact hplaces1.notResult x r q hr (hsame.symm.trans hq)
    · obtain rfl := some.inj (hnew.symm.trans hq)
      exact hbound.ne
  · exact hagg.trans hadds.aggregate
  · rw [hcode, hadds.instructions]
    rfl
  · rw [hparameters2, hadds.parameters]
    exact Nat.zero_add _
  · exact hcount.ge.trans hregs
  · intro q hq
    obtain ⟨hsame, -⟩ | hnew := hreg
    · rw [hsame, hadds.result] at hq
      cases hq
    · obtain rfl := some.inj (hnew.symm.trans hq)
      exact hcount.ge
  · intro p hshape hp
    have hoper : c.operand f.returnType = .ofPrimitive p := TypeTable.operand_of_builtin hshape
    refine ⟨htype.trans hoper, ?_⟩
    obtain ⟨-, hvoid⟩ | hnew := hreg
    · rw [hoper, isVoid_eq_false (isInteger_ofPrimitive hp)] at hvoid
      cases hvoid
    · rw [hnew]
      rfl
  · intro x p args hx hlen
    rw [hstor]
    obtain ⟨r, w, hr, -, hw, hlook⟩ | ⟨hr, hlook⟩ := hadds.storage x p args hx hlen
    · exact .inl ⟨r, w, hr, hw, hlook⟩
    · exact .inr ⟨hr, hlook⟩

/-- The finished method of a function: its code realizes the body, starts with it, and is entered with
the values of the arguments in the variables. -/
lemma function_realizes (hvars : c.Integers vars) (hf : f.Scalar c vars) {name : String}
    (hstat : statics.Sound) (hsyms : ∀ x p, vars x = some p → statics.symbols.lookup x = none)
    {method : Method} (h : Gen.method statics name (function c f) = .ok (method, statics')) :
    ∃ dF, Realizes method.instructions dF c vars f.returnType (· ∈ f.body.labels) f.body ∧
      Covers method.instructions dF c vars f.returnType (· ∈ f.body.labels) [f.body] 0 ∧
      method.returnType = dF.returnType ∧ method.parameters.length = f.parameters.length ∧
      ∀ args : List UInt64, args.length = f.parameters.length →
        Matches vars dF (f.entry vars args) fun k => args.getD k 0 := by
  obtain ⟨⟨_, dF⟩, hrun, h⟩ := ok_of_bind h
  obtain ⟨method', hmeth, h⟩ := ok_of_bind h
  cases h
  obtain ⟨code, hcode, rfl⟩ := toMethod_eq_ok hmeth
  -- The prologue, the body and the end of the method.
  obtain ⟨_, d1, hmodify, hrun⟩ := bind_eq_ok hrun
  cases hmodify
  obtain ⟨_, d2, hparams, hrun⟩ := bind_eq_ok hrun
  obtain ⟨_, d3, hres, hrun⟩ := bind_eq_ok hrun
  obtain ⟨_, d4, hbody, hrun⟩ := bind_eq_ok hrun
  rw [hf.body.cleanup?_eq_none] at hrun
  obtain ⟨_, d5, hleave, hrun⟩ := bind_eq_ok hrun
  obtain rfl : d5.add (returnOf d5) = dF := by
    cases hrun
    rfl
  obtain ⟨hready, hsize, hlen, hcount, hreturnIndex, hret, hstor⟩ :=
    prologue_ready hvars hstat hsyms hf.result hparams hres
  -- The code is finished where the return follows the body.
  have hsafe := stmt_safe c f.body true hready.sound _ _ hbody
  obtain ⟨hext, hlabel, hsize5⟩ := defineLabel_ext hsafe.2 hleave
  have hF : Finished code (d5.add (returnOf d5)) := finished_of_resolveBranches hext.sound.ordered hcode
  have hgrows := stmt_grows hF c hvars.kind hf.body hready hbody
  have hleads5 := Draft.Leads.add d5 (returnOf d5)
  have hleads4 := hext.leads.trans hleads5
  have hleads3 := hgrows.leads.trans hleads4
  have hlast : code[d4.instructions.size]? = some (returnOf (d5.add (returnOf d5))) := by
    rw [← hsize5]
    exact instruction_of_add hF hext.sound (.refl _)
  have hend : Covers code (d5.add (returnOf d5)) c vars f.returnType (· ∈ f.body.labels) []
      d4.instructions.size := .nil (hleads5.labels _ _ hlabel)
  have hplaces : (d5.add (returnOf d5)).Places vars :=
    hgrows.ready.places.of_eq hleads4 hext.storage
  refine ⟨d5.add (returnOf d5), ⟨hF, hvars.kind, hplaces, fun label hmem => ?_, fun p hshape hp => ?_,
    fun pc hpc => ?_⟩, ?_, rfl, ?_, fun args hargs => ⟨fun x p r hx hr => ?_, fun q hq => ?_⟩⟩
  · obtain ⟨found, hfound⟩ := isSome_iff_exists.1 (hf.body.isSome_seek hmem [])
    refine ⟨found, hfound, fun pc hpc => ?_⟩
    obtain ⟨pc', hpc', hcovers⟩ := seek_covers hF c hvars.kind hf.body hready hbody hleads4
      (fun _ => rfl) hend hfound
    obtain rfl := some.inj (hpc'.symm.trans hpc)
    exact hcovers
  · obtain ⟨htype, hsome⟩ := hret p hshape hp
    rw [hleads3.result, hleads3.returnType]
    exact ⟨htype, hsome⟩
  · obtain rfl := some.inj ((hleads5.labels _ _ hlabel).symm.trans hpc)
    exact hlast
  · rw [← hsize]
    exact .cons hf.body hready hbody hleads4 (fun _ => rfl) hend
  · exact (congrArg length hleads3.parameters).trans hlen
  · have hzero (k : Nat) (hk : f.parameters.length ≤ k) : args.getD k 0 = 0 := by
      rw [getD_eq_getElem?_getD, getElem?_eq_none (by omega)]
      rfl
    unfold Function.entry
    rw [hx]
    obtain ⟨r', w, hr', hw, hlook⟩ | ⟨hnone, hlook⟩ := hstor x p args hx hargs
    · obtain rfl := Storage.register.inj (some.inj ((hleads3.storage x _ hr').symm.trans hr))
      rw [hlook, getD_eq_getElem?_getD, hw]
      rfl
    · -- A variable that is no parameter has a register above them.
      obtain hr' | hr' := hleads3.fresh x r hr
      · rw [hnone] at hr'
        cases hr'
      · rw [hlook, hzero r.index (hcount.trans hr')]
        exact reduce_zero _
  · have hq' : d3.returnRegister = some q := hleads3.result.symm.trans hq
    rw [getD_eq_getElem?_getD, getElem?_eq_none (hargs ▸ hreturnIndex q hq')]
    rfl

end Code.Gen

/-! ## Runs of a function -/

/-- What a run answers whose body has an outcome.  A body that returns nothing returns zero. -/
def Outcome.answer {σ : Type} : Outcome σ Fault → Except Fault UInt64
  | .returned value _ => .ok (value.getD 0).toUInt64
  | .failed fault => .error fault

namespace Code.Gen

section

variable {c : Env} {vars : SymbolId → Option Primitive} {m : Module} {method : Method} {dF : Draft}
  {result : TypeId} {labels : String → Prop} {body : Stmt}
  (hregs : ∀ i ∈ method.instructions, ∀ r ∈ i.registers, r.index < method.registerCount)
  (hR : Realizes method.instructions dF c vars result labels body)

include hregs hR

lemma answer_of_halts (htype : method.returnType = dF.returnType)
    (hcall : InCall m method [] here s) (h : Halts method.instructions dF here outcome) :
    ∃ count, ∀ limit fuel, count ≤ fuel → answer method (s.finish m limit fuel) = outcome.answer := by
  cases h with
  | @returned _ _ pc ρ hleave hruns hvalue =>
    obtain ⟨t, hreach, ht⟩ := hcall.runs hregs hruns
    have hlast : Local.Leaves method.instructions (pc, ρ) (returned dF ρ) := by
      have hcode := hR.leaves pc hleave
      unfold returned
      cases hq : dF.returnRegister with
      | some => exact Local.leaves_ret hcode rfl (by simp [returnOf, hq])
      | none => exact Local.leaves_ret_nil hcode rfl (by simp [returnOf, hq])
    obtain ⟨u, hnext, hfs, hres⟩ := ht.leave hregs hlast
    obtain ⟨count, hcount⟩ := State.finish_of_reaches (hreach.tail (mem_def.2 hnext))
    refine ⟨count, fun limit fuel hle => ?_⟩
    rw [(hcount limit fuel).1 hle, State.finish_nil hfs, answer, hres, htype, hvalue]
    rfl
  | @failed fault _ hruns hfaults =>
    obtain ⟨t, hreach, ht⟩ := hcall.runs hregs hruns
    have hfault := ht.fault hregs hfaults
    obtain ⟨count, hcount⟩ := State.finish_of_reaches hreach
    refine ⟨count + 1, fun limit fuel hle => ?_⟩
    obtain ⟨rest, hrest⟩ : ∃ rest, fuel - count = rest + 1 := ⟨fuel - count - 1, by omega⟩
    rw [(hcount limit fuel).1 (by omega), hrest]
    obtain ⟨frame, callers, -, hfin⟩ := State.finish_begin hfault
    rw [hfin]
    rfl

/-- While the run of a body has no end, neither has the call. -/
lemma stepLimit_of_endless (hcovers : Covers method.instructions dF c vars result labels rest pc)
    (hm : Matches vars dF σ ρ) (hcall : InCall m method callers (pc, ρ) s)
    (hendless : ∀ outcome, ¬StateTransition.Reaches (Goto.step (Meaning.integers c.types) body)
      (.running rest σ) (.done outcome)) (limit fuel : Nat) :
    (s.finish m limit fuel).1 = .error (.stepLimit limit) := by
  obtain ⟨moment, hmoment, hfoll⟩ := covers_step hR hcovers hm
  cases hfoll with
  | done => exact absurd (.single (mem_def.2 hmoment)) (hendless _)
  | @running rest' σ' _ _ hmoves hcovers' hm' =>
    have hendless' (outcome : Outcome (SymbolId → Int) Fault) (h : StateTransition.Reaches
        (Goto.step (Meaning.integers c.types) body) (.running rest' σ') (.done outcome)) : False :=
      hendless outcome (.head (mem_def.2 hmoment) h)
    obtain hruns | ⟨hruns, hless⟩ := hmoves
    · -- Steps of the machine are fewer afterwards.
      obtain ⟨mid, hstep, hruns⟩ := Relation.TransGen.head'_iff.1 hruns
      obtain ⟨u, hnext, hu⟩ := hcall.step hregs hstep
      obtain ⟨t, hreach, ht⟩ := hu.runs hregs hruns
      obtain ⟨count, hcount⟩ := State.finish_of_reaches hreach
      cases fuel with
      | zero => exact State.finish_zero hnext
      | succ fuel =>
        rw [State.finish_next hnext]
        obtain hlt | hle := Nat.lt_or_ge fuel count
        · exact (hcount limit fuel).2 hlt
        · rw [(hcount limit fuel).1 hle]
          exact stepLimit_of_endless hcovers' hm' ht hendless' limit (fuel - count)
    · -- Fewer statements remain.
      obtain ⟨t, hreach, ht⟩ := hcall.runs hregs hruns
      obtain ⟨count, hcount⟩ := State.finish_of_reaches hreach
      obtain hlt | hle := Nat.lt_or_ge fuel count
      · exact (hcount limit fuel).2 hlt
      · rw [(hcount limit fuel).1 hle]
        exact stepLimit_of_endless hcovers' hm' ht hendless' limit (fuel - count)
termination_by (fuel, (Stmt.nodesOfList rest).length)
decreasing_by
  · exact .left _ _ (by omega)
  · exact .right' _ (Nat.sub_le _ _) hless

end

/-! ## Functions of a program -/

lemma functions_find (hstat : statics.Sound) (h : functions c fs statics = .ok (ms, statics'))
    (hf : fs.find? (·.name == f.name) = some f) :
    ∃ k method statics1 statics2, ms.findIdx? (·.name == f.name) = some k ∧ ms[k]? = some method ∧
      statics1.Sound ∧ statics1.symbols = statics.symbols ∧
      Gen.method statics1 f.name (function c f) = .ok (method, statics2) := by
  induction fs generalizing statics ms with
  | nil => cases hf
  | cons g _ ih =>
    obtain ⟨⟨first, statics1⟩, hmeth, h⟩ := ok_of_bind h
    obtain ⟨⟨others, statics2⟩, hothers, h⟩ := ok_of_bind h
    cases h
    obtain ⟨-, hname, -, hstatics1, texts, hsame⟩ :=
      method_made hstat (function_completes False.elim) hmeth
    rw [find?_cons] at hf
    rw [findIdx?_cons, hname]
    cases hg : g.name == f.name with
    | true =>
      rw [hg] at hf
      obtain rfl := some.inj hf
      exact ⟨0, first, statics, statics1, rfl, rfl, hstat, rfl, hmeth⟩
    | false =>
      rw [hg] at hf
      obtain ⟨k, method, statics3, statics4, hk, hget, hsound, hsyms, hrun⟩ :=
        ih hstatics1 hothers hf
      refine ⟨k + 1, method, statics3, statics4, by rw [hk]; rfl, hget, hsound, ?_, hrun⟩
      rw [hsyms, hsame, symbols_addTexts]

lemma layoutGlobals_symbols (h : layoutGlobals c gs statics = .ok statics')
    (hx : ∀ g ∈ gs, g.symbol ≠ x) : statics'.symbols.lookup x = statics.symbols.lookup x := by
  induction gs generalizing statics with
  | nil =>
    cases h
    rfl
  | cons g _ ih =>
    simp only [layoutGlobals] at h
    split at h
    · cases h
    · have hne : (x == g.symbol) = false := by
        simpa using fun h => hx g (.head _) h.symm
      rw [ih h fun g hg => hx g (.tail _ hg), lookup_append]
      simp [StaticLayout.allocate, lookup_cons, hne]

end Code.Gen

open Code.Gen

lemma Program.compile_function {name : String} (h : p.compile types name = .ok m)
    (hf : p.functions.find? (·.name == f.name) = some f) (hname : f.name ≠ staticInitializer) :
    ∃ callee method statics statics', m.methodIndex? f.name = some callee ∧
      m.methods[callee]? = some method ∧ statics.Sound ∧
      (∀ x, (∀ g ∈ p.globals, g.symbol ≠ x) → statics.symbols.lookup x = none) ∧
      Gen.method statics f.name (function { scopes := p.scopes, types } f) = .ok (method, statics') := by
  unfold compile at h
  extract_lets c rest at h
  obtain ⟨statics, hlay, h⟩ := ok_of_bind h
  have hstat : statics.Sound := layoutGlobals_sound c ⟨by simp, by simp⟩ hlay
  -- The initializer of the globals stands in front of the functions.
  obtain ⟨first, texts, hsound, hfirst, h⟩ : ∃ (first : List Method) (texts : List String),
      (texts.foldl addText statics).Sound ∧
      (∀ method ∈ first, method.name = staticInitializer) ∧
      rest (first, texts.foldl addText statics) = .ok m := by
    split at h
    · exact ⟨[], [], hstat, by simp, h⟩
    · obtain ⟨⟨init, statics1⟩, hmeth, h⟩ := ok_of_bind h
      obtain ⟨-, hname, -, hsound, texts, rfl⟩ :=
        method_made hstat (initializer_completes False.elim) hmeth
      exact ⟨[init], texts, hsound, by simpa using hname, h⟩
  obtain ⟨⟨others, _⟩, hothers, h⟩ := ok_of_bind h
  cases h
  obtain ⟨k, method, statics1, statics2, hk, hget, hsound1, hsame, hmeth⟩ :=
    functions_find hsound hothers hf
  have hnone : first.findIdx? (·.name == f.name) = none := by
    rw [findIdx?_eq_none_iff]
    intro method hmem
    rw [hfirst method hmem]
    simpa using hname.symm
  refine ⟨first.length + k, method, statics1, statics2, ?_, ?_, hsound1, fun x hx => ?_, hmeth⟩
  · rw [Module.methodIndex?, findIdx?_toArray, findIdx?_append, hnone, hk]
    simp [Nat.add_comm]
  · rw [getElem?_toArray, getElem?_append_right (Nat.le_add_right _ _),
      Nat.add_sub_cancel_left]
    exact hget
  · rw [hsame, symbols_addTexts]
    exact layoutGlobals_symbols hlay hx

/-- The variables of a program that hold integers: neither functions nor globals, and no references. -/
def Program.integers (p : Program) (types : TypeTable) (x : SymbolId) : Option Primitive :=
  let symbol := p.scopes.symbol x
  if symbol.kind = .function ∨ symbol.isReferenceParameter = true ∨ ∃ g ∈ p.globals, g.symbol = x then
    none
  else
    match symbol.type.map types.shape with
    | some (.builtin q) => if q.isInteger then some q else none
    | _ => none

lemma Program.integers_eq_some (h : p.integers types x = some q) :
    (p.scopes.symbol x).kind ≠ .function ∧ (p.scopes.symbol x).isReferenceParameter = false ∧
      (∀ g ∈ p.globals, g.symbol ≠ x) ∧
      ∃ type, (p.scopes.symbol x).type = some type ∧ types.shape type = .builtin q := by
  unfold integers at h
  extract_lets symbol at h
  split at h
  · cases h
  · next hnot =>
    simp only [not_or, not_exists, not_and, Bool.not_eq_true] at hnot
    refine ⟨hnot.1, hnot.2.1, hnot.2.2, ?_⟩
    split at h
    · next q' hshape =>
      obtain ⟨type, htype, hshape⟩ := map_eq_some_iff.1 hshape
      split at h
      · cases h
        exact ⟨type, htype, hshape⟩
      · cases h
    · cases h

/-- A call of a function of a compiled program, on a machine that can initialize the variables of the
program and has the memory for a frame of the function. -/
structure Program.Invokes (p : Program) (types : TypeTable) (m : Module) (f : Function) (s : State)
    (arguments : List UInt64) : Prop where
  compiled : ∃ name, p.compile types name = .ok m
  function : p.function? f.name = some f
  name_ne : f.name ≠ staticInitializer
  machine : s.IsMachine
  initialized : ∃ limit t, (s.reset m).initializeStatics m limit = (.ok (), t)
  frame : ∀ method ∈ m.methods, method.name = f.name → method.frameBytes < 2 ^ 64
  arguments : arguments.length = f.parameters.length

/-- A run of a compiled function answers what the run of its body ends with, if it has an end. -/
lemma Program.Invokes.run_iff_ends {m : Module} {s : State} {args : List UInt64}
    (h : p.Invokes types m f s args)
    (hscal : f.Scalar { scopes := p.scopes, types } (p.integers types)) (x : Except Fault UInt64) :
    (∃ outcome, Goto.Ends (Meaning.integers types) f.body (f.entry (p.integers types) args)
        outcome ∧ outcome.answer = x) ↔
      ∃ least, ∀ limit ≥ least, (s.run m limit f.name args).1 = x := by
  obtain ⟨⟨name, hcompile⟩, hf, hname, hs, ⟨limit, t, hinit⟩, hframe, hargs⟩ := h
  obtain ⟨callee, method, statics, statics', hindex, hmeth, hsound, hsyms, hmake⟩ :=
    compile_function hcompile hf hname
  have hvars : Env.Integers { scopes := p.scopes, types } (p.integers types) :=
    ⟨fun x q hx => (integers_eq_some hx).1, fun x q hx => (integers_eq_some hx).2.1,
      fun x q hx => (integers_eq_some hx).2.2.2⟩
  obtain ⟨dF, hR, hcovers, htype, hparams, hmatches⟩ := function_realizes hvars hscal hsound
    (fun x q hx => hsyms x (integers_eq_some hx).2.2.1) hmake
  have hclosed := compile_closed hcompile method (Array.mem_of_getElem? hmeth)
  have hregs (i : Instruction) (hi : i ∈ method.instructions) :
      ∀ r ∈ i.registers, r.index < method.registerCount := (hclosed.fits i hi).registers
  -- The call of the entry point starts at the body.
  have hsize : 0 < t.stack.bytes.size :=
    (enters_stacked hs (.entry hindex hmeth (hargs.trans hparams.symm) hinit)).nonempty
  have hcall : InCall m method [] (0, fun k => args.getD k 0) (t.pushFrame m callee args) := by
    rw [← initializeStatics_frames rfl hinit]
    exact .of_pushFrame hsize hmeth (hargs.trans hparams.symm ▸ hclosed.parameters)
      (hframe method (Array.mem_of_getElem? hmeth) (name_of_methodIndex? hindex hmeth))
  obtain ⟨least, hrun⟩ := run_eq_of_initialized hindex hmeth
    (hargs.trans hparams.symm) hinit
  have hforward (outcome : Outcome (SymbolId → Int) Fault)
      (h : Goto.Ends (Meaning.integers types) f.body (f.entry (p.integers types) args) outcome) :
      ∃ least, ∀ limit ≥ least, (s.run m limit f.name args).1 = outcome.answer := by
    have hhalts := halts_of_reaches hR hcovers (hmatches args hargs)
      (StateTransition.mem_eval.1 h).1
    obtain ⟨count, hcount⟩ := answer_of_halts hregs hR htype hcall hhalts
    refine ⟨max least (t.steps + count), fun limit hle => ?_⟩
    rw [hrun limit (le_of_max_le_left hle)]
    exact hcount limit _ (Nat.le_sub_of_add_le' (le_of_max_le_right hle))
  constructor
  · rintro ⟨outcome, hends, rfl⟩
    exact hforward outcome hends
  · rintro ⟨least', hanswer⟩
    by_cases hends : ∃ outcome, Goto.Ends (Meaning.integers types) f.body
        (f.entry (p.integers types) args) outcome
    · obtain ⟨outcome, hends⟩ := hends
      obtain ⟨least'', hsame⟩ := hforward outcome hends
      refine ⟨outcome, hends, ?_⟩
      rw [← hsame _ (le_max_right least' least''), hanswer _ (le_max_left least' least'')]
    · -- Without an end, the run exhausts every limit, so its answer depends on the limit.
      have hlimit (limit : Nat) (hle : least ≤ limit) :
          (s.run m limit f.name args).1 = .error (.stepLimit limit) := by
        have hexhausted := stepLimit_of_endless hregs hR hcovers (hmatches args hargs)
          hcall (fun outcome h => hends ⟨outcome, StateTransition.mem_eval.2 ⟨h, rfl⟩⟩) limit
          (limit - t.steps)
        rw [hrun limit hle]
        exact answer_of_error hexhausted
      have h1 := hanswer (max least least') (le_max_right _ _)
      have h2 := hanswer (max least least' + 1) ((le_max_right _ _).trans (Nat.le_succ _))
      rw [hlimit _ (le_max_left _ _)] at h1
      rw [hlimit _ ((le_max_left _ _).trans (Nat.le_succ _)), ← h1] at h2
      simp at h2

end CompilerCore
