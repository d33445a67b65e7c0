import CompilerCore.Proofs.Code.Emission

/-!
# Compiled modules are closed

A method is *closed* when control cannot leave it but through its only return, which is its last
instruction, and when its instructions name registers, blocks and statics that exist.  Every method
of a compiled module is closed.

Memory is laid out while code is made: blocks for the frame of the method, and statics for texts.
Nothing else changes the layout, so the blocks of a finished method come about by adding blocks of
certain sizes one after the other, and the statics of a module by adding variables and texts.
-/

namespace CompilerCore.Code

open Array List

/-- A method that can be run on its own, given the statics of its module. -/
structure Method.Closed (statics : List Static) (m : Method) : Prop where
  /-- The last instruction is the only return. -/
  returns : ∃ (body : Array Instruction) (last : Instruction), m.instructions = body.push last ∧
    last.opcode = .ret ∧ ∀ i ∈ body, i.opcode ≠ .ret
  branches : ∀ i ∈ m.instructions, i.opcode.isBranch = true →
    ∃ target < m.instructions.size, i.immediates.head? = some (.offset target)
  fits : ∀ i ∈ m.instructions, i.Fits m.registerCount m.blocks.length statics
  parameters : m.parameters.length ≤ m.registerCount

lemma Method.Closed.mono {m : Method} (h : m.Closed statics) (hs : statics ⊆ statics') :
    m.Closed statics' :=
  { h with fits := fun i hi => (h.fits i hi).mono le_rfl le_rfl hs }

namespace Gen

variable {c : Env}

/-! ## Replacing labels by offsets -/

/-- A branch whose first immediate is the instruction that it goes to. -/
def goto (offset : Nat) (i : Instruction) : Instruction :=
  { i with immediates := .offset offset :: i.immediates.tail }

variable {code' code : Array Instruction} {labels : Labels} {pending : List (Nat × String)}
  {m : Method} {j : Nat} {i : Instruction} {d : Draft}

section

variable {method label : String} (h : resolveBranches method labels pending code = .ok code')
include h

lemma resolveBranches_size : code'.size = code.size := by
  induction pending generalizing code with
  | nil =>
    cases h
    rfl
  | cons _ _ ih =>
    simp only [resolveBranches] at h
    split at h
    · cases h
    · simpa using ih h

/-- Resolving the pending branches leaves every other instruction as it is. -/
lemma resolveBranches_other (hj : ∀ entry ∈ pending, entry.1 ≠ j) : code'[j]? = code[j]? := by
  induction pending generalizing code with
  | nil =>
    cases h
    rfl
  | cons entry _ ih =>
    simp only [resolveBranches] at h
    split at h
    · cases h
    · rw [ih h fun e he => hj e (.tail _ he), Array.getElem?_modify, if_neg (hj entry (.head _))]

/-- A pending branch comes to point at the instruction that its label names. -/
lemma resolveBranches_branch (hnodup : (pending.map (·.1)).Nodup) (hj : (j, label) ∈ pending) :
    ∃ offset, labels.find? label = some offset ∧ code'[j]? = code[j]?.map (goto offset) := by
  induction pending generalizing code with
  | nil => cases hj
  | cons entry _ ih =>
    obtain ⟨hnot, hnodup⟩ := nodup_cons.1 hnodup
    simp only [resolveBranches] at h
    split at h
    · cases h
    · next offset hoff =>
      obtain rfl | hj := mem_cons.1 hj
      · refine ⟨offset, hoff, ?_⟩
        rw [resolveBranches_other h fun e he hej => hnot (mem_map.2 ⟨e, he, hej⟩)]
        rw [Array.getElem?_modify, if_pos rfl]
        rfl
      · obtain ⟨offset', hoffset', hcode⟩ := ih h hnodup hj
        refine ⟨offset', hoffset', ?_⟩
        have hne : entry.1 ≠ j := by
          rintro rfl
          exact hnot (mem_map.2 ⟨_, hj, rfl⟩)
        rw [hcode, Array.getElem?_modify, if_neg hne]

end

/-! ## The end of a method -/

lemma goto_fits (h : i.Fits registers blocks statics) (hbr : i.opcode.isBranch = true) :
    (goto offset i).Fits registers blocks statics := by
  refine .of_registers h.registers ⟨?_, ?_, ?_⟩
  all_goals
    intro hop
    rw [show i.opcode = _ from hop] at hbr
    cases hbr

/-- No two branches that wait for a label are the same instruction. -/
lemma nodup_of_ordered (h : pending.Pairwise fun entry other => other.1 < entry.1) :
    (pending.reverse.map (·.1)).Nodup := by
  rw [List.Nodup, pairwise_map, pairwise_reverse]
  exact h.imp fun hlt => hlt.ne

lemma resolved (hd : d.Sound)
    (h : resolveBranches d.name d.labels d.pendingBranches.reverse (d.instructions.push last) = .ok code)
    (hj : code[j]? = some i) : (j = d.instructions.size ∧ i = last) ∨
    (d.instructions[j]? = some i ∧ i.opcode.isBranch = false) ∨
    ∃ offset ≤ d.instructions.size, ∃ i0, d.instructions[j]? = some i0 ∧
      i0.opcode.isBranch = true ∧ i = goto offset i0 := by
  have hpend (label : String) :
      (j, label) ∈ d.pendingBranches.reverse → j < d.instructions.size := fun hmem =>
    hd.pending _ (mem_reverse.1 hmem)
  have hcode : (d.instructions.push last)[j]? =
      if j = d.instructions.size then some last else d.instructions[j]? := getElem?_push
  by_cases hwaits : ∃ label, (j, label) ∈ d.pendingBranches.reverse
  · obtain ⟨label, hmem⟩ := hwaits
    have hlt := hpend label hmem
    obtain ⟨offset, hoff, hget⟩ := resolveBranches_branch h (nodup_of_ordered hd.ordered) hmem
    rw [hcode, if_neg hlt.ne, hj] at hget
    obtain ⟨i0, hi0, rfl⟩ := Option.map_eq_some_iff.1 hget.symm
    refine .inr (.inr ⟨offset, hd.labels _ (mem_of_lookup hoff), i0, hi0, ?_, rfl⟩)
    exact (hd.branches j i0 hi0).2 ⟨label, mem_reverse.1 hmem⟩
  · rw [resolveBranches_other h fun entry hmem heq => hwaits ⟨entry.2, by rwa [← heq]⟩, hcode] at hj
    split at hj
    · next heq => exact .inl ⟨heq, (Option.some.inj hj).symm⟩
    · refine .inr (.inl ⟨hj, ?_⟩)
      rw [Bool.eq_false_iff, ne_eq, hd.branches j i hj]
      exact fun ⟨label, hmem⟩ => hwaits ⟨label, mem_reverse.2 hmem⟩

lemma resolved_returns (hd : d.Sound) (hlast : last.opcode = .ret)
    (h : resolveBranches d.name d.labels d.pendingBranches.reverse (d.instructions.push last) = .ok code) :
    ∃ (body : Array Instruction) (back : Instruction), code = body.push back ∧ back.opcode = .ret ∧
      ∀ i ∈ body, i.opcode ≠ .ret := by
  have hsize : code.size = d.instructions.size + 1 := by simpa using resolveBranches_size h
  obtain ⟨body, back, rfl⟩ := exists_push_of_size_eq_add_one hsize
  have hbody : body.size = d.instructions.size := by simpa using hsize
  refine ⟨body, back, rfl, ?_, fun i hi => ?_⟩
  · obtain ⟨-, heq⟩ | ⟨hget, -⟩ | ⟨_, _, _, hget, _⟩ := resolved hd h getElem?_push_size
    · rw [heq, hlast]
    · simp [hbody] at hget
    · simp [hbody] at hget
  · obtain ⟨j, hj, rfl⟩ := mem_iff_getElem.1 hi
    obtain ⟨heq, -⟩ | ⟨hget, -⟩ | ⟨_, _, i0, hget, _, heq⟩ := resolved hd h (getElem?_push_lt hj)
    · omega
    · exact hd.noReturn _ (mem_of_getElem? hget)
    · rw [heq]
      exact hd.noReturn i0 (mem_of_getElem? hget)

lemma toMethod_eq_ok (h : toMethod d = .ok m) :
    ∃ code, resolveBranches d.name d.labels d.pendingBranches.reverse d.instructions = .ok code ∧
      m = { name := d.name, parameters := d.parameters, locals := d.locals, blocks := d.blocks
            instructions := code, labels := d.labels, registerCount := d.registerCount
            returnType := d.returnType, returnsAggregate := d.returnsAggregate } := by
  cases hcode : resolveBranches d.name d.labels d.pendingBranches.reverse d.instructions with
  | error =>
    rw [toMethod, hcode] at h
    cases h
  | ok code =>
    rw [toMethod, hcode] at h
    cases h
    exact ⟨code, rfl, rfl⟩

lemma toMethod_closed (hd : Ended d) (h : toMethod d = .ok m) : m.Closed d.statics.slots := by
  obtain ⟨d0, last, hd0, hlast, hret, rfl⟩ := hd
  obtain ⟨code, hcode, rfl⟩ := toMethod_eq_ok h
  refine ⟨resolved_returns hd0 hret hcode, fun i hi hbr => ?_, fun i hi => ?_, hd0.parameters⟩
  · obtain ⟨j, hj⟩ := getElem?_of_mem hi
    obtain ⟨-, rfl⟩ | ⟨-, hplain⟩ | ⟨offset, hoff, i0, -, -, rfl⟩ := resolved hd0 hcode hj
    · rw [hret] at hbr
      cases hbr
    · rw [hplain] at hbr
      cases hbr
    · have hsize : code.size = d0.instructions.size + 1 := by
        simpa using resolveBranches_size hcode
      exact ⟨offset, show offset < code.size by omega, rfl⟩
  · obtain ⟨j, hj⟩ := getElem?_of_mem hi
    obtain ⟨-, rfl⟩ | ⟨hget, -⟩ | ⟨offset, hoff, i0, hget, hbr, rfl⟩ := resolved hd0 hcode hj
    · exact hlast
    · exact hd0.fits i (mem_of_getElem? hget)
    · exact goto_fits (hd0.fits i0 (mem_of_getElem? hget)) hbr

lemma goto_formed (h : i.isFormed = true) (hbr : i.opcode.isBranch = true) :
    (goto offset i).isFormed = true := by
  obtain ⟨opcode⟩ := i
  cases opcode with
  | jump => rfl
  | branchIfZero | branchIfNotZero =>
    exact Bool.and_eq_true_iff.2 ⟨(Bool.and_eq_true_iff.1 h).1, rfl⟩
  | _ => cases hbr

lemma toMethod_formed (hd : Ended d) (hform : d.Formed) (h : toMethod d = .ok m) :
    ∀ i ∈ m.instructions, i.isFormed = true := by
  obtain ⟨d0, last, hd0, -, -, rfl⟩ := hd
  obtain ⟨code, hcode, rfl⟩ := toMethod_eq_ok h
  have hbody (j : Nat) (i : Instruction) (hi : d0.instructions[j]? = some i) : i.isFormed = true :=
    hform i (mem_push_of_mem _ (mem_of_getElem? hi))
  intro i hi
  obtain ⟨j, hj⟩ := getElem?_of_mem hi
  obtain ⟨-, rfl⟩ | ⟨hget, -⟩ | ⟨offset, -, i0, hget, hbr, rfl⟩ := resolved hd0 hcode hj
  · exact hform i mem_push_self
  · exact hbody j i hget
  · exact goto_formed (hbody j i0 hget) hbr

/-! ## Functions and programs -/

lemma passes_any (s : Stmt) : s.All (c.Passes (fun _ => True) fun _ => True) :=
  fun n _ => ⟨fun _ _ => trivial, n.jumps_anywhere⟩

lemma clearsAll_any
    (hsuits : strict → ∀ e ∈ es, e.All (Expr.Suits c.types)) (known : List SymbolId) :
    c.ClearsAll (fun _ => True) strict known es :=
  Env.clearsAll_of_inOrder (.inr fun _ => trivial) (fun _ _ _ _ _ _ => trivial) hsuits

/-- What one draft has the next one has, and the memory allocated since.  All code stays formed, if that
is asked for. -/
def Enlarges (c : Env) (strict : Prop) (d d' : Draft) : Prop :=
  d.Below d' ∧ d.Allocates c d' ∧ (strict → d.Formed → d'.Formed)

lemma Enlarges.trans (h : Enlarges c strict d d') (h' : Enlarges c strict d' d'') :
    Enlarges c strict d d'' :=
  ⟨h.1.trans h'.1, h.2.1.trans h'.2.1, fun hstrict hd => h'.2.2 hstrict (h.2.2 hstrict hd)⟩

lemma Enlarges.same (hcount : d'.registerCount = d.registerCount)
    (hname : d'.name = d.name) (hblocks : d'.blocks = d.blocks) (hstat : d'.statics = d.statics)
    (hcode : d'.instructions = d.instructions ∨
      ∃ i, i.isFormed = true ∧ d'.instructions = d.instructions.push i) :
    Enlarges c strict d d' := by
  refine ⟨⟨hcount.ge, by rw [hblocks], ?_⟩, .same hname hblocks hstat, fun _ hd => ?_⟩
  · rw [hstat]
    exact List.Subset.refl _
  · obtain hcode | ⟨i, hi, hcode⟩ := hcode
    · rwa [Draft.Formed, hcode]
    · rw [Draft.Formed, hcode]
      exact fun k hk => (mem_push.1 hk).elim (hd k) (· ▸ hi)

/-- Making code from a draft on enlarges it. -/
def enlarging (c : Env) (strict : Prop) (d0 : Draft) : Directing c fun _ => True where
  spared := none
  strict := strict
  own _ d := Enlarges c strict d0 d
  targets _ := True
  quiet hd hquiet := hd.trans ⟨hquiet.below, hquiet.allocates, hquiet.formed⟩
  newLabel hd := hd.trans (.same rfl rfl rfl rfl (.inl rfl))
  branch hd _ _ _ hi := hd.trans (.same rfl rfl rfl rfl (.inr ⟨_, hi, rfl⟩))
  duplicate _ _ _ := trivial
  define hd _ := hd.trans (.same rfl rfl rfl rfl (.inl rfl))
  perm hd _ := hd
  jump hd _ _ _ hi := hd.trans (.same rfl rfl rfl rfl (.inr ⟨_, hi, rfl⟩))
  result _ hd hquiet := hd.trans ⟨hquiet.below, hquiet.allocates, hquiet.formed⟩
  finish _ _ _ _ := trivial

lemma enlarging_resting (hd : d.Sound) (labels : List String) :
    Resting (enlarging c strict d) [] labels d where
  own := .same rfl rfl rfl rfl (.inl rfl)
  stores := nofun
  sound := hd
  bound := nofun
  apart := fun entry _ => entry.2.avoids_none
  held := nofun

lemma stmt_safe (c : Env) (s : Stmt) (isTail : Bool) (hd : d.Sound) : Safe d (stmt c s isTail) := by
  intro _ d' h
  have hd' := (stmt_ends s (passes_any s) (clearsAll_any False.elim []) isTail d
    (enlarging_resting hd (s.codeLabels ++ []))).2 _ _ h
  exact ⟨hd'.own.1, hd'.sound⟩

lemma declare_safe (c : Env) (x : SymbolId) (type : TypeId) (hd : d.Sound) :
    Safe d (declare c x type) := by
  intro _ d' h
  have hstart : Resting (enlarging c False d) [] [] d := enlarging_resting hd []
  have hd' := (declare_ends x type [] [] d hstart).2 _ _ h
  exact ⟨hd'.own.1, hd'.sound⟩

lemma parameters_safe (c : Env) (xs : List SymbolId) (hd : d.Sound) : Safe d (parameters c xs) := by
  intro _ d' h
  have hstart : Resting (enlarging c False d) [] [] d := enlarging_resting hd []
  have hd' := (parameters_ends (fun _ _ _ => trivial) d hstart).2 _ _ h
  exact ⟨hd'.own.1, hd'.sound⟩

/-- Code that brings a sound draft to its end. -/
def Completes (c : Env) (strict : Prop) (code : Gen Unit) : Prop :=
  ∀ ⦃d d'⦄, d.Sound → code d = .ok ((), d') → Enlarges c strict d d' ∧ Ended d'

variable {strict : Prop}

lemma function_completes (hsuits : strict → ∀ e ∈ f.emitted, e.All (Expr.Suits c.types)) :
    Completes c strict (function c f) := by
  intro d d' hd h
  exact (function_ends (D := enlarging c strict d)
    (fun _ hd => hd.trans (.same rfl rfl rfl rfl (.inl rfl))) (passes_any _) (fun _ _ _ => trivial)
    (clearsAll_any hsuits _) d (enlarging_resting hd _)).2 _ _ h

lemma initializer_completes {gs : List Global}
    (hsuits : strict → ∀ e ∈ gs.flatMap (·.statement.emitted), e.All (Expr.Suits c.types)) :
    Completes c strict (do
      globals c gs
      leave c none) := by
  intro d d' hd h
  exact (initializer_ends (fun _ _ => passes_any _) (clearsAll_any hsuits _) d
    (enlarging_resting hd _)).2 _ _ h

/-- A method among the statics of its module.  Its own blocks were allocated from none on. -/
structure Made (c : Env) (strict : Prop) (statics : List Static) (m : Method) : Prop where
  closed : m.Closed statics
  blocks : ∃ sizes : List UInt64, m.blocks = sizes.foldl (addBlock c) []
  formed : strict → ∀ i ∈ m.instructions, i.isFormed = true

lemma method_made (hstat : statics.Sound) {name : String} {code : Gen Unit}
    (hcode : Completes c strict code) (h : method statics name code = .ok (m, statics')) :
    Made c strict statics'.slots m ∧ m.name = name ∧ statics.slots ⊆ statics'.slots ∧ statics'.Sound ∧
      ∃ texts : List String, statics' = texts.foldl addText statics := by
  obtain ⟨⟨_, d⟩, hrun, h⟩ := ok_of_bind h
  obtain ⟨m', hmeth, h⟩ := ok_of_bind h
  cases h
  obtain ⟨⟨hbelow, hallocates, hform⟩, hended⟩ := hcode (empty_sound name hstat) hrun
  have hclosed := toMethod_closed hended hmeth
  have hempty : Draft.Formed { name, statics } := by simp [Draft.Formed]
  have hform (hstrict : strict) := toMethod_formed hended (hform hstrict hempty) hmeth
  obtain ⟨_, -, rfl⟩ := toMethod_eq_ok hmeth
  refine ⟨⟨hclosed, hallocates.blocks, hform⟩, hallocates.name, hbelow.statics, ?_, hallocates.statics⟩
  obtain ⟨d0, _, hd0, _, _, rfl⟩ := hended
  exact hd0.statics

lemma Made.mono {statics' : List Static} (h : Made c strict statics m) (hsub : statics ⊆ statics') :
    Made c strict statics' m :=
  { h with closed := h.closed.mono hsub }

lemma functions_made (hsuits : strict → ∀ f ∈ fs, ∀ e ∈ f.emitted, e.All (Expr.Suits c.types))
    (hstat : statics.Sound) (h : functions c fs statics = .ok (ms, statics')) :
    (∀ m ∈ ms, Made c strict statics'.slots m) ∧ statics.slots ⊆ statics'.slots ∧
      ∃ texts : List String, statics' = texts.foldl addText statics := by
  induction fs generalizing statics ms with
  | nil =>
    cases h
    exact ⟨by simp, List.Subset.refl _, [], rfl⟩
  | cons f _ ih =>
    simp only [forall_mem_cons] at hsuits
    obtain ⟨⟨first, statics1⟩, hmeth, h⟩ := ok_of_bind h
    obtain ⟨⟨others, statics2⟩, hothers, h⟩ := ok_of_bind h
    cases h
    obtain ⟨hmade, -, hslots, hstatics1, texts, rfl⟩ :=
      method_made hstat (function_completes fun hstrict => (hsuits hstrict).1) hmeth
    obtain ⟨hms, hslots', texts', rfl⟩ := ih (fun hstrict => (hsuits hstrict).2) hstatics1 hothers
    exact ⟨forall_mem_cons.2 ⟨hmade.mono hslots', hms⟩, List.Subset.trans hslots hslots',
      texts ++ texts', by rw [List.foldl_append]⟩

lemma functions_fails (h : ∀ f ∈ fs, Fits E symbols f.name (function c f))
    (hstat : Lists symbols statics) (hrun : functions c fs statics = .error error) : E error := by
  induction fs generalizing statics with
  | nil => cases hrun
  | cons f _ ih =>
    rw [forall_mem_cons] at h
    obtain hfirst | ⟨⟨first, statics'⟩, hfirst, hrun⟩ := error_of_bind hrun
    · exact h.1 statics hstat error hfirst
    obtain hrest | ⟨r, -, hrun⟩ := error_of_bind hrun
    · obtain ⟨-, -, -, hsound, texts, rfl⟩ :=
        method_made hstat.1 (function_completes False.elim) hfirst
      exact ih h.2 ⟨hsound, (symbols_addTexts texts statics).trans hstat.2⟩ hrest
    · cases hrun

end Gen

/-- Every method of a module refers only to what the module has. -/
def Module.Closed (m : Module) : Prop := ∀ method ∈ m.methods, method.Closed m.statics

def Module.Formed (m : Module) : Prop :=
  ∀ method ∈ m.methods, ∀ i ∈ method.instructions, i.isFormed = true

/-! ## Finished code -/

/-- The code of a method whose branches have got the offsets of their labels. -/
structure Finished (code : Array Instruction) (d : Draft) : Prop where
  branch : ∀ j label i, (j, label) ∈ d.pendingBranches → d.instructions[j]? = some i →
    ∃ offset, d.labels.find? label = some offset ∧ code[j]? = some (Gen.goto offset i)
  other : ∀ j i, (∀ label, (j, label) ∉ d.pendingBranches) → d.instructions[j]? = some i →
    code[j]? = some i

lemma finished_of_resolveBranches
    (hordered : d.pendingBranches.Pairwise fun entry other => other.1 < entry.1)
    (h : Gen.resolveBranches d.name d.labels d.pendingBranches.reverse d.instructions = .ok code) :
    Finished code d where
  branch j label i hmem hi := by
    obtain ⟨offset, hoff, hcode⟩ :=
      Gen.resolveBranches_branch h (Gen.nodup_of_ordered hordered) (mem_reverse.2 hmem)
    exact ⟨offset, hoff, by rw [hcode, hi]; rfl⟩
  other j i hnot hi := by
    rw [← hi]
    refine Gen.resolveBranches_other h fun entry hentry hj => ?_
    exact hnot entry.2 (hj ▸ mem_reverse.1 hentry)

namespace Finished

variable {code : Array Instruction} {d dF : Draft} (hF : Finished code dF) (h : d.Leads dF)
  {j : Nat} {i : Instruction} (hi : d.instructions[j]? = some i)

include hF h hi

lemma instruction (hnot : ∀ label, (j, label) ∉ d.pendingBranches) : code[j]? = some i := by
  obtain ⟨hj, -⟩ := Array.getElem?_eq_some_iff.1 hi
  refine hF.other j i (fun label hmem => ?_) ((h.code j hj).trans hi)
  exact hnot label ((h.pending (j, label) hj).1 hmem)

lemma goto (hmem : (j, label) ∈ d.pendingBranches) :
    ∃ offset, dF.labels.find? label = some offset ∧ code[j]? = some (Gen.goto offset i) := by
  obtain ⟨hj, -⟩ := Array.getElem?_eq_some_iff.1 hi
  exact hF.branch j label i ((h.pending (j, label) hj).2 hmem) ((h.code j hj).trans hi)

end Finished

end CompilerCore.Code

namespace CompilerCore

open Code Code.Gen

/-- Whatever code is made of satisfies a property. -/
def Program.Emits (p : Program) (P : Expr → Prop) : Prop :=
  (∀ f ∈ p.functions, ∀ e ∈ f.emitted, e.All P) ∧
    ∀ e ∈ p.globals.flatMap (·.statement.emitted), e.All P

variable {p : Program} {types : TypeTable} {name : String} {m : Module}

/-- The statics of a module are its variables and texts, and its methods are closed. -/
lemma Program.compile_made {strict : Prop} (hc : c = { scopes := p.scopes, types })
    (hsuits : strict → p.Emits (Expr.Suits types)) (h : p.compile types name = .ok m) :
    ∃ (statics : StaticLayout) (texts : List String), layoutGlobals c p.globals {} = .ok statics ∧
      m.statics = (texts.foldl addText statics).slots ∧
      ∀ method ∈ m.methods, Made c strict m.statics method := by
  subst hc
  unfold Program.compile at h
  extract_lets c rest at h
  obtain ⟨statics, hlay, h⟩ := ok_of_bind h
  have hstat := layoutGlobals_sound c ⟨by simp, by simp⟩ hlay
  have hrest (first : List Method) (texts : List String)
      (hsound : (texts.foldl addText statics).Sound)
      (hfirst : ∀ method ∈ first, Made c strict (texts.foldl addText statics).slots method)
      (h : rest (first, texts.foldl addText statics) = .ok m) :
      ∃ texts : List String, m.statics = (texts.foldl addText statics).slots ∧
        ∀ method ∈ m.methods, Made c strict m.statics method := by
    obtain ⟨⟨others, statics2⟩, hothers, h⟩ := ok_of_bind h
    cases h
    obtain ⟨hms, hslots, texts', rfl⟩ :=
      functions_made (fun hstrict => (hsuits hstrict).1) hsound hothers
    refine ⟨texts ++ texts', by rw [List.foldl_append], fun method hmem => ?_⟩
    obtain hmem | hmem := List.mem_append.1 (List.mem_toArray.1 hmem)
    · exact (hfirst method hmem).mono hslots
    · exact hms method hmem
  refine ⟨statics, ?_⟩
  split at h
  · obtain ⟨texts, hres⟩ := hrest [] [] hstat (by simp) h
    exact ⟨texts, hlay, hres⟩
  · obtain ⟨⟨init, statics1⟩, hmeth, h⟩ := ok_of_bind h
    obtain ⟨hmade, -, -, hsound, texts, rfl⟩ :=
      method_made hstat (initializer_completes fun hstrict => (hsuits hstrict).2) hmeth
    obtain ⟨texts, hres⟩ := hrest [init] texts hsound (by simpa using hmade) h
    exact ⟨texts, hlay, hres⟩

lemma Program.compile_closed (h : p.compile types name = .ok m) : m.Closed := by
  obtain ⟨_, _, -, -, hmethods⟩ := compile_made rfl False.elim h
  exact fun method hmem => (hmethods method hmem).closed

lemma Program.compile_formed (hsuits : p.Emits (Expr.Suits types))
    (h : p.compile types name = .ok m) : m.Formed := by
  obtain ⟨_, _, -, -, hmethods⟩ := compile_made rfl (fun _ : True => hsuits) h
  exact fun method hmem => (hmethods method hmem).formed trivial

/-- Code generation for a program ends with an error only if it is one of those with which the code for
some method ends. -/
lemma Program.compile_fails {E : CompileError → Prop} (hc : c = { scopes := p.scopes, types })
    (hglobals : ∀ g ∈ p.globals, (c.scopes.symbol g.symbol).type = none → E .untyped)
    (hfunctions : ∀ f ∈ p.functions, Fits E (staticNames c p.globals) f.name (function c f))
    (hinit : Fits E (staticNames c p.globals) staticInitializer (do
      Gen.globals c p.globals
      leave c none)) (h : p.compile types name = .error error) : E error := by
  subst hc
  obtain hlay | ⟨statics, hlay, h⟩ := error_of_bind h
  · exact layoutGlobals_fails hglobals hlay
  have hstat := And.intro (layoutGlobals_sound _ ⟨by simp, by simp⟩ hlay)
    (symbols_of_layoutGlobals hlay)
  have hrest (first : List Method) (statics : StaticLayout)
      (hstat : Lists (staticNames { scopes := p.scopes, types } p.globals) statics) (h : (do
        let r ← Gen.functions { scopes := p.scopes, types } p.functions statics
        return ({ name, methods := (first ++ r.1).toArray, statics := r.2.slots } : Module)) =
          .error error) : E error := by
    obtain hrun | ⟨r, -, h⟩ := error_of_bind h
    · exact functions_fails hfunctions hstat hrun
    · cases h
  split at h
  · exact hrest _ _ hstat h
  · obtain hmeth | ⟨⟨m, statics'⟩, hmeth, h⟩ := error_of_bind h
    · exact hinit statics hstat error hmeth
    · obtain ⟨-, -, -, hsound, texts, rfl⟩ :=
        method_made hstat.1 (initializer_completes False.elim) hmeth
      exact hrest _ _ ⟨hsound, (symbols_addTexts texts statics).trans hstat.2⟩ h

end CompilerCore
