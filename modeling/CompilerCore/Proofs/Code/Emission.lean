import CompilerCore.Proofs.Code.Failures

/-!
# Code for whole methods

What holds of expressions carries over to statements, methods and programs.  The labels of a
statement are defined in the order in which its code is made, and the variables that it declares are
known to the code that follows.
-/

namespace CompilerCore

open List

/-! ## The order of code -/

namespace Expr

/-- The symbols with storage after an expression's code. -/
def adds (known : List SymbolId) : Expr → List SymbolId
  | declare _ x _ => x :: known
  | _ => known

/-- Every name stands for a function or a variable that is known when code for it is made. -/
def InOrder (scopes : ScopeTree) : List SymbolId → List Expr → Prop
  | _, [] => True
  | known, e :: rest => e.All (Names scopes (e.adds known)) ∧ InOrder scopes (e.adds known) rest

instance (scopes : ScopeTree) (known : List SymbolId) (e : Expr) :
    Decidable (e.Names scopes known) := by
  unfold Names
  split <;> infer_instance

instance decidableInOrder (scopes : ScopeTree) :
    (known : List SymbolId) → (es : List Expr) → Decidable (InOrder scopes known es)
  | _, [] => .isTrue trivial
  | known, e :: rest =>
    have := decidableInOrder scopes (e.adds known) rest
    by unfold InOrder; infer_instance

variable {known' known : List SymbolId}

section

variable (hsub : ∀ x ∈ known, x ∈ known')
include hsub

lemma Names.mono {e : Expr} (h : e.Names scopes known) : e.Names scopes known' := by
  cases e with
  | name _ _ symbol =>
    cases symbol with
    | none => trivial
    | some x => exact h.imp_right (hsub x)
  | _ => trivial

lemma adds_mono {e : Expr} : ∀ x ∈ e.adds known, x ∈ e.adds known' := by
  cases e with
  | declare _ x =>
    exact forall_mem_cons.2 ⟨.head _, fun y hy => mem_cons_of_mem x (hsub y hy)⟩
  | _ => exact hsub

lemma InOrder.mono (h : InOrder scopes known es) : InOrder scopes known' es := by
  induction es generalizing known known' with
  | nil => trivial
  | cons e _ ih => exact ⟨h.1.mono fun _ => .mono (adds_mono hsub), ih (adds_mono hsub) h.2⟩

end

end Expr

namespace Stmt

mutual

/-- The expressions of a statement in the order in which their code is made.  Cleanup statements have
code elsewhere. -/
def emitted : Stmt → List Expr
  | expr _ e => [e]
  | block _ _ body => emittedIn body
  | seq _ body => emittedIn body
  | branch _ condition yes none => condition :: emitted yes
  | branch _ condition yes (some no) => condition :: (emitted yes ++ emitted no)
  | ret _ value => value.toList
  | gotoAddress _ target => [target]
  | switch _ value body _ => value :: emitted body
  | whileLoop .. | doLoop .. | forLoop .. | breakLoop _ | continueLoop _ | goto .. | label ..
  | caseLabel .. | defaultLabel _ | assertion .. | asm .. | cleanup .. | empty _ => []
termination_by structural s => s

def emittedIn : List Stmt → List Expr
  | [] => []
  | s :: rest => emitted s ++ emittedIn rest
termination_by structural ss => ss

end

mutual

/-- The labels that a statement's code defines. -/
def codeLabels : Stmt → List String
  | label _ name => [name]
  | block _ _ body => codeLabelsIn body
  | seq _ body => codeLabelsIn body
  | branch _ _ yes none => codeLabels yes
  | branch _ _ yes (some no) => codeLabels yes ++ codeLabels no
  | switch _ _ body (some own) => own.head :: (codeLabels body ++ [own.tail])
  | switch _ _ _ none | expr .. | whileLoop .. | doLoop .. | forLoop .. | breakLoop _
  | continueLoop _ | ret .. | goto .. | gotoAddress .. | caseLabel .. | defaultLabel _
  | assertion .. | asm .. | cleanup .. | empty _ => []
termination_by structural s => s

def codeLabelsIn : List Stmt → List String
  | [] => []
  | s :: rest => codeLabels s ++ codeLabelsIn rest
termination_by structural ss => ss

end

/-- The expressions of a statement whose values its code uses. -/
def needs : Stmt → List Expr
  | branch _ condition _ _ => [condition]
  | gotoAddress _ target => [target]
  | switch _ value _ _ => [value]
  | _ => []

/-- A fault of a statement itself, with the error that its code ends in. -/
def Flaw (c : Code.Env) (error : Code.CompileError) (s : Stmt) : Prop :=
  ((∃ e ∈ s.needs, e.hasValue c = false) ∧ error = .voidValue) ∨ match s with
    | whileLoop .. => error = .unlowered .whileLoop
    | doLoop .. => error = .unlowered .doLoop
    | forLoop .. => error = .unlowered .forLoop
    | breakLoop _ => error = .unlowered .breakLoop
    | continueLoop _ => error = .unlowered .continueLoop
    | switch _ _ _ none => error = .unlowered .switch
    | caseLabel .. => error = .unlowered .caseLabel
    | defaultLabel _ => error = .unlowered .defaultLabel
    | assertion .. => error = .unlowered .assertion
    | switch _ _ _ (some _) | expr .. | block .. | seq .. | branch .. | ret .. | goto ..
    | gotoAddress .. | label .. | asm .. | cleanup .. | empty _ => False

/-- The jumps of a statement lead to certain labels. -/
def Jumps (targets : String → Prop) : Stmt → Prop
  | goto _ name => targets name
  | ret .. => targets Code.leaveLabel
  | switch _ _ _ (some own) =>
    (∀ case ∈ own.cases, targets case.1) ∧ ∀ name ∈ own.default, targets name
  | _ => True

instance decidableJumps (targets : String → Prop) [DecidablePred targets] :
    (s : Stmt) → Decidable (s.Jumps targets)
  | goto _ name => (inferInstance : Decidable (targets name))
  | ret .. => (inferInstance : Decidable (targets Code.leaveLabel))
  | switch _ _ _ (some own) => (inferInstance : Decidable ((∀ case ∈ own.cases, targets case.1) ∧ _))
  | switch _ _ _ none | expr .. | block .. | seq .. | branch .. | whileLoop .. | doLoop .. | forLoop ..
  | breakLoop _ | continueLoop _ | gotoAddress .. | label .. | caseLabel .. | defaultLabel _
  | assertion .. | asm .. | cleanup .. | empty _ => .isTrue trivial

lemma Flaw.error_eq {s : Stmt} (h : s.Flaw c error) :
    error = .voidValue ∨ ∃ construct, error = .unlowered construct := by
  refine h.imp And.right fun hform => ?_
  cases s with
  | switch _ _ _ own =>
    cases own with
    | none => exact ⟨_, hform⟩
    | some => exact hform.elim
  | whileLoop | doLoop | forLoop | breakLoop | continueLoop | caseLabel | defaultLabel
  | assertion => exact ⟨_, hform⟩
  | _ => exact hform.elim

lemma jumps_anywhere (s : Stmt) : s.Jumps fun _ => True := by
  cases s with
  | switch _ _ _ labels => cases labels <;> simp [Jumps]
  | _ => trivial

end Stmt

/-! ### What holds of all expressions -/

variable {P R : Expr → Prop} {p : Program}

lemma Stmt.all_emittedIn (ih : ∀ s ∈ ss, s.All (Holds P R) → ∀ e ∈ s.emitted, e.All P)
    (h : ∀ s ∈ ss, s.All (Holds P R)) : ∀ e ∈ emittedIn ss, e.All P := by
  induction ss with
  | nil => exact nofun
  | cons _ _ ihrest =>
    rw [forall_mem_cons] at ih h
    exact forall_mem_append.2 ⟨ih.1 h.1, ihrest ih.2 h.2⟩

lemma Stmt.all_emitted {s : Stmt} (h : s.All (Holds P R)) : ∀ e ∈ s.emitted, e.All P := by
  induction s using Stmt.induction with
  | expr => exact forall_mem_singleton.2 (all_expr.1 h)
  | block _ _ _ ih => exact all_emittedIn ih (all_block.1 h).2
  | seq _ _ ih => exact all_emittedIn ih (all_seq.1 h).2
  | branch _ _ _ no ihy ihn =>
    obtain ⟨hc, hy, hn⟩ := all_branch.1 h
    cases no with
    | none => exact forall_mem_cons.2 ⟨hc, ihy hy⟩
    | some no =>
      exact forall_mem_cons.2 ⟨hc, forall_mem_append.2 ⟨ihy hy, ihn no rfl (hn no rfl)⟩⟩
  | ret => exact fun e he => (all_ret.1 h e (Option.mem_toList.1 he)).1
  | gotoAddress => exact forall_mem_singleton.2 (all_gotoAddress.1 h)
  | switch _ _ _ _ ih =>
    exact forall_mem_cons.2 ⟨(all_switch.1 h).1, ih (all_switch.1 h).2⟩
  | _ => exact nofun

lemma Stmt.all_cleanup? {P : Stmt → Prop} (h : body.All P) (hs : s ∈ Code.Gen.cleanup? body) :
    s.All P := by
  obtain ⟨n, hn, hfound⟩ := exists_of_findSome?_eq_some hs
  cases n with
  | cleanup =>
    cases hfound
    exact (all_cleanup.1 (h.each _ hn)).2
  | _ => cases hfound

/-- The expressions of a function in the order in which their code is made. -/
def Function.emitted (f : Function) : List Expr :=
  f.body.emitted ++ (Code.Gen.cleanup? f.body).elim [] Stmt.emitted

lemma Function.all_emitted {f : Function} (h : f.body.All (Stmt.Holds P R)) :
    ∀ e ∈ f.emitted, e.All P := by
  refine List.forall_mem_append.2 ⟨Stmt.all_emitted h, ?_⟩
  cases hcleanup : Code.Gen.cleanup? f.body with
  | none => exact nofun
  | some => exact Stmt.all_emitted (Stmt.all_cleanup? h hcleanup)

def Function.codeLabels (f : Function) : List String :=
  f.body.codeLabels ++ Code.leaveLabel :: (Code.Gen.cleanup? f.body).elim [] Stmt.codeLabels

namespace Code

/-- Whatever is wrong with a statement is an admitted error, and its jumps lead to certain labels. -/
def Env.Passes (c : Env) (E : CompileError → Prop) (targets : String → Prop) (s : Stmt) : Prop :=
  (∀ error, s.Flaw c error → E error) ∧ s.Jumps targets

/-- Whatever is wrong with expressions whose code is made one after the other is an admitted error. -/
def Env.ClearsAll (c : Env) (E : CompileError → Prop) (strict : Prop) : List SymbolId → List Expr → Prop
  | _, [] => True
  | known, e :: rest =>
    e.All (c.Clears E strict (e.adds known)) ∧ ClearsAll c E strict (e.adds known) rest

variable {c : Env} {E : CompileError → Prop}

lemma Env.clearsAll_append : c.ClearsAll E strict known (es ++ es') ↔
      c.ClearsAll E strict known es ∧ c.ClearsAll E strict (es.foldl Expr.adds known) es' := by
  induction es generalizing known with
  | nil => simp [ClearsAll]
  | cons _ _ ih =>
    rw [cons_append, ClearsAll, ClearsAll, ih, and_assoc, foldl_cons]

lemma Env.clearsAll_of_inOrder (h : Expr.InOrder c.scopes known es ∨ ∀ name, E (.unresolved name))
    (hflaws : ∀ e ∈ es, e.All fun n => ∀ error, n.Flaw c error → E error)
    (hsuits : strict → ∀ e ∈ es, e.All (Expr.Suits c.types)) : c.ClearsAll E strict known es := by
  induction es generalizing known with
  | nil => trivial
  | cons _ _ ih =>
    rw [forall_mem_cons] at hflaws
    simp only [forall_mem_cons] at hsuits
    exact ⟨fun n hn =>
      ⟨hflaws.1 n hn, h.imp_left fun h => h.1 n hn, fun hstrict => (hsuits hstrict).1 n hn⟩,
      ih (h.imp_left And.right) hflaws.2 fun hstrict => (hsuits hstrict).2⟩

/-- Making code keeps a property also if it jumps to certain labels, and once all labels are defined,
every branch has somewhere to go.  Code for a return may write to the spared register. -/
structure Directing (c : Env) (E : CompileError → Prop) extends Keeping c E where
  /-- The labels to which jumps may lead. -/
  targets : String → Prop
  jump : ∀ {labels d label}, own labels d → targets label → ∀ i, i.destination = none →
    i.isFormed = true → own labels (d.addBranch i label)
  result : ∀ {labels d d'}, targets leaveLabel → own labels d → d.Quiet c none strict d' → own labels d'
  finish : ∀ {d index label}, own [] d → (index, label) ∈ d.pendingBranches →
    d.labels.find? label = none → ∀ method, E (.undefinedLabel method label)

/-- A draft between statements. -/
abbrev Resting (D : Directing c E) (known : List SymbolId) (labels : List String) : Draft → Prop :=
  Holding D.toKeeping known [] labels

variable {D : Directing c E} {known : List SymbolId} {held : List Storage} {labels : List String}

lemma Holding.rest (h : Holding D.toKeeping known held labels d) : Resting D known labels d :=
  h.sub (forall_mem_nil _)

namespace Gen

/-! ## Statements -/

lemma outer_ends (h : e.All (c.Clears E D.strict (e.adds known))) (access : Access) :
    Ends E (Resting D known labels) (expr c e access)
      (Gives D.toKeeping (e.adds known) [] labels (e.hasValue c)) := by
  cases e with
  | declare _ x init =>
    obtain ⟨hnode, hi⟩ := Expr.all_declare.1 h
    have hplace : Ends E (Resting D known labels) (declaredPlace c x) fun p =>
        Holding D.toKeeping (x :: known) [p.1.storage] labels :=
      declaredPlace_ends (fun hnone => hnode.1 _ (.inr (.inr ⟨hnone, rfl⟩))) [] labels
    cases init with
    | none => exact typed_ends h fun _ _ => hplace.bind fun _ => .pure fun _ hd => ⟨nofun, hd.rest⟩
    | some value =>
      have hvalue := (expr_options value).part (hi value rfl) hnode (by simp [Expr.needs]) .value
      exact typed_ends h fun _ _ => hplace.bind fun _ => (hvalue _ labels).bind fun _ =>
        ((write_ends (.tail _ (.head _)) _ (.head _)).drop (forall_mem_nil _)).some
  | _ => exact expr_options _ h access [] labels

lemma value_ends (hs : c.Passes E D.targets s) (hneeds : e ∈ s.needs)
    (h : e.All (c.Clears E D.strict (e.adds known))) :
    Ends E (Resting D known labels) (value c e) fun r =>
      Holding D.toKeeping (e.adds known) [.register r] labels :=
  need_ends (outer_ends h _) fun hvalue => hs.1 _ (.inl ⟨⟨e, hneeds, hvalue⟩, rfl⟩)

lemma jump_ends (h : D.targets label) : Keeps D.toKeeping known held labels (jump label) :=
  branch_ends rfl (.inl rfl) (by simp) .void fun _ i hi hform hd => D.jump hd.own h i hi hform

lemma dispatch_ends {value : Register} (hvalue : .register value ∈ held)
    (h : ∀ case ∈ cases, D.targets case.1) :
    Keeps D.toKeeping known held labels (dispatch value type cases) := by
  induction cases with
  | nil => exact .pure fun _ => id
  | cons _ _ ih =>
    rw [forall_mem_cons] at h
    refine .bind (resultOf_ends [value] (fun _ => id) (by simpa using hvalue)
      fun _ => ⟨⟨trivial, fun _ => rfl⟩, rfl⟩) fun isEqual => ?_
    refine .bind (branch_ends rfl (.inr rfl) (by simp) _ ?_) fun _ => (ih h.2).use fun _ => .tail _
    exact fun _ i hi hform hd => D.jump hd.own h.1 i hi hform

lemma storeResult_ends (h : D.targets leaveLabel) :
    Ends E (Gives D.toKeeping known [] labels isCertain o) (storeResult o) fun _ =>
      Resting D known labels := by
  refine .get fun d hd => ?_
  replace hd := hd.2
  split
  · next value target htgt =>
    have hvalue := (hd.register (.head _)).1
    have hbound := hd.sound.result target htgt
    have hnext {d' : Draft} (hquiet : d.Quiet c none D.strict d') (hsound : d'.Sound)
        (hstor : d'.storage = d.storage) : Resting D known labels d' :=
      hd.rest.next hquiet.below (D.result h hd.own hquiet) hquiet.stores hsound (hstor ▸ hd.apart)
    rintro _ rfl
    split
    · refine Ends.of_ok rfl (hnext (.add _ (by simp) fun _ => rfl)
        (emit_ordinary_safe hd.sound (by trivial) ?_ _ _ rfl).2 rfl)
      simp [Instruction.registers, hbound, hvalue]
    · obtain ⟨d', hrun, hsound, hquiet, hstor⟩ := moveInto_ok hd.sound hbound
        (by simp : target.index ∉ none) hvalue _
      exact Ends.of_ok hrun (hnext hquiet hsound hstor)
  · exact .pure_here hd.rest

lemma stmts_ends
    (ih : ∀ s ∈ body, ∀ isTail known labels, s.All (c.Passes E D.targets) →
      c.ClearsAll E D.strict known s.emitted → Ends E (Resting D known (s.codeLabels ++ labels))
        (stmt c s isTail) fun _ => Resting D (s.emitted.foldl Expr.adds known) labels)
    (hs : ∀ s ∈ body, s.All (c.Passes E D.targets))
    (h : c.ClearsAll E D.strict known (Stmt.emittedIn body)) :
    Ends E (Resting D known (Stmt.codeLabelsIn body ++ labels)) (stmts c body isTail) fun _ =>
      Resting D ((Stmt.emittedIn body).foldl Expr.adds known) labels := by
  induction body generalizing known with
  | nil => exact .pure fun _ => id
  | cons _ _ ihrest =>
    rw [forall_mem_cons] at ih hs
    rw [Stmt.emittedIn, Env.clearsAll_append] at h
    rw [Stmt.codeLabelsIn, Stmt.emittedIn, append_assoc, foldl_append]
    exact (ih.1 _ _ _ hs.1 h.1).bind fun _ => ihrest ih.2 hs.2 h.2

/-- The labels that are still to be defined may be listed in any order, and what the code of one
statement uses need not exist for the next one. -/
lemma Ends.reorder (h : Ends E (Resting D known labels') m Q) (hperm : labels.Perm labels') :
    Ends E (Holding D.toKeeping known held labels) m Q :=
  h.imp (fun _ hd => { hd.rest with own := D.perm hd.own hperm }) fun _ _ => id

lemma stmt_ends (s : Stmt) (hs : s.All (c.Passes E D.targets))
    (h : c.ClearsAll E D.strict known s.emitted) (isTail : Bool) :
    Ends E (Resting D known (s.codeLabels ++ labels)) (stmt c s isTail) fun _ =>
      Resting D (s.emitted.foldl Expr.adds known) labels := by
  induction s using Stmt.induction generalizing known labels isTail with
  | expr => exact (outer_ends h.1 _).bind fun _ => .pure fun _ hd => hd.2.rest
  | block _ _ _ ih =>
    exact stmts_ends (fun s hmem isTail known labels hs h => ih s hmem hs h isTail)
      (Stmt.all_block.1 hs).2 h
  | seq _ _ ih =>
    exact stmts_ends (fun s hmem isTail known labels hs h => ih s hmem hs h isTail)
      (Stmt.all_seq.1 hs).2 h
  | branch _ _ yes no ihy ihn =>
    obtain ⟨hnode, hy, hn⟩ := Stmt.all_branch.1 hs
    cases no with
    | none =>
      obtain ⟨hcond, hyes⟩ := h
      refine .bind (typeOf_ends hcond) fun _ =>
        (value_ends hnode (.head _) hcond).bind fun test =>
        (newLabel_ends _ _).bind fun done =>
        (branch_keeps rfl (.head _) _ (.head _)).bind fun _ => ?_
      refine .bind ((ihy hy hyes false).reorder ?_) fun _ => defineLabel_ends done labels
      exact perm_middle.symm
    | some no =>
      obtain ⟨hcond, hboth⟩ := h
      obtain ⟨hyes, hno⟩ := Env.clearsAll_append.1 hboth
      rw [Stmt.codeLabels, Stmt.emitted, foldl_cons, foldl_append, append_assoc]
      refine .bind (typeOf_ends hcond) fun _ =>
        (value_ends hnode (.head _) hcond).bind fun test =>
        (newLabel_ends _ _).bind fun done => (newLabel_ends _ _).bind fun otherwise =>
        (branch_keeps rfl (.head _) _ (.head _)).bind fun _ => ?_
      have hperm : (otherwise :: done :: (yes.codeLabels ++ (no.codeLabels ++ labels))).Perm
          (yes.codeLabels ++ otherwise :: done :: (no.codeLabels ++ labels)) :=
        perm_append_comm_assoc [otherwise, done] _ _
      refine .bind ((ihy hy hyes false).reorder hperm) fun _ => ?_
      refine (jump_keeps (.tail _ (.head _))).bind fun _ =>
        (defineLabel_ends otherwise _).bind fun _ => ?_
      exact .bind ((ihn no rfl (hn no rfl) hno false).reorder perm_middle.symm) fun _ =>
        defineLabel_ends done labels
  | ret _ result =>
    have hleave (known : List SymbolId) : Keeps D.toKeeping known [] labels
        (if isTail = true then pure () else jump leaveLabel) :=
      .ite (.pure fun _ => id) (jump_ends hs.self.2)
    cases result with
    | none => exact hleave known
    | some =>
      exact (outer_ends h.1 _).bind fun o => (storeResult_ends hs.self.2).bind fun _ => hleave _
  | goto => exact jump_ends hs.self.2
  | gotoAddress =>
    exact (value_ends hs.self (.head _) h.1).bind fun _ =>
      Ends.imp (emit_ends ⟨trivial, fun _ => rfl⟩ (by simp [Instruction.registers])) (fun _ => id)
        fun _ _ hd => hd.rest
  | label _ name => exact defineLabel_ends name labels
  | switch _ selector body own ih =>
    obtain ⟨hnode, hbody⟩ := Stmt.all_switch.1 hs
    cases own with
    | none => exact .throw (hnode.1 _ (.inr rfl))
    | some own =>
      obtain ⟨hsel, hinner⟩ := h
      rw [Stmt.codeLabels, Stmt.emitted, foldl_cons, cons_append, append_assoc]
      refine .bind (typeOf_ends hsel) fun _ => (defineLabel_ends own.head _).bind fun _ =>
        (value_ends hnode (.head _) hsel).bind fun value =>
        (dispatch_ends (.head _) hnode.2.1).bind fun _ => ?_
      refine .bind (Q := fun _ => Resting D (selector.adds known)
        (body.codeLabels ++ own.tail :: labels)) (.use ?_ (forall_mem_nil _)) fun _ =>
          (ih hbody hinner false).bind fun _ => defineLabel_ends own.tail labels
      cases hdef : own.default with
      | none => exact jump_keeps (by simp)
      | some name => exact jump_ends (hnode.2.2 name hdef)
  | asm => exact emit_ends ⟨trivial, fun _ => rfl⟩ (forall_mem_nil _)
  | cleanup => exact .pure fun _ => id
  | empty => exact .pure fun _ => id
  | _ => exact .throw (hs.self.1 _ (.inr rfl))

/-! ## Methods -/

/-- A sound draft with a return after its last instruction. -/
def Ended (d : Draft) : Prop :=
  ∃ (d0 : Draft) (i : Instruction), d0.Sound ∧ d0.Fits i ∧ i.opcode = .ret ∧
    d = { d0 with instructions := d0.instructions.push i }

/-- The instruction that ends a method. -/
def returnOf (d : Draft) : Instruction :=
  { opcode := .ret, type := d.returnType, sources := d.returnRegister.toList }

variable {d : Draft} {statics : StaticLayout} {gs : List Global} {error : CompileError}

lemma ended_of_sound (hd : d.Sound) : Ended (d.add (returnOf d)) := by
  refine ⟨d, _, hd, .of_registers (fun r hr => hd.result r ?_) ⟨?_, ?_, ?_⟩, rfl, rfl⟩
  · simpa [Instruction.registers, returnOf] using hr
  all_goals rintro ⟨⟩

lemma addParameter_sound (hd : d.Sound) (hcount : d'.registerCount = d.registerCount + 1)
    (hparams : d'.parameters.length = d.parameters.length + 1) (hblocks : d'.blocks = d.blocks)
    (hstat : d'.statics = d.statics) (hcode : d'.instructions = d.instructions)
    (hpend : d'.pendingBranches = d.pendingBranches) (hlabs : d'.labels = d.labels)
    (hstor : d.Below d' → ∀ entry ∈ d'.storage, d'.HasStorage entry.2)
    (hres : d.Below d' → ∀ r ∈ d'.returnRegister, r.index < d'.registerCount) :
    d.Below d' ∧ d'.Sound := by
  have hbelow : d.Below d' := ⟨by omega, by rw [hblocks], by rw [hstat]; exact List.Subset.refl _⟩
  have hle := hd.parameters
  exact ⟨hbelow, hd.grow hbelow hcode hpend hlabs (hstor hbelow) (hres hbelow) (by omega)
    (hstat ▸ hd.statics)⟩

lemma parameter_safe (c : Env) (x : SymbolId) (hd : d.Sound) : Safe d (parameter c x) := by
  intro _ d' h
  cases htype : (c.scopes.symbol x).type with
  | none =>
    simp only [parameter, htype] at h
    cases h
  | some =>
    simp only [parameter, htype] at h
    cases h
    refine addParameter_sound hd rfl length_append rfl rfl rfl rfl rfl
      (fun hbelow entry h => ?_) (fun hbelow r hr => hbelow.register (hd.result r hr))
    obtain rfl | h := mem_cons.1 h
    · dsimp only
      split
      · exact Nat.lt_succ_self _
      · exact Nat.lt_succ_self _
    · exact hbelow.hasStorage (hd.storage entry h)

lemma resultRegister_safe (c : Env) (type : TypeId) (hd : d.Sound) :
    Safe d (resultRegister c type) := by
  intro _ d' h
  obtain ⟨_, d1, htype, h⟩ := bind_eq_ok h
  have hbelow : d.Below d1 ∧ d1.Sound := by
    cases htype
    exact ⟨⟨le_rfl, le_rfl, List.Subset.refl _⟩, { hd with }⟩
  obtain ⟨hbelow, hd1⟩ := hbelow
  refine .imp_left hbelow.trans ?_
  split at h
  · cases h
    refine addParameter_sound hd1 rfl length_append rfl rfl rfl rfl rfl
      (fun hbelow entry h => hbelow.hasStorage (hd1.storage entry h)) fun _ r hr => ?_
    cases hr
    exact Nat.lt_succ_self _
  · split at h
    · cases h
      exact ⟨.refl _, hd1⟩
    · obtain ⟨hbelow, hd2⟩ := register_safe hd1 .localVar _ _ rfl
      cases h
      refine ⟨⟨hbelow.registers, hbelow.blocks, hbelow.statics⟩, { hd2 with result := fun r hr => ?_ }⟩
      cases hr
      exact Nat.lt_succ_self _

lemma parameter_ends (h : (c.scopes.symbol x).type = none → E .untyped) :
    Ends E (Resting D known labels) (parameter c x) fun _ => Resting D (x :: known) labels := by
  intro d hd
  have hsafe := parameter_safe c x hd.sound
  cases htype : (c.scopes.symbol x).type with
  | none =>
    have hrun : parameter c x d = .error .untyped := by simp [parameter, htype]; rfl
    exact ⟨fun error herror => by rw [hrun] at herror; cases herror; exact h htype,
      fun _ _ hok => by rw [hrun] at hok; cases hok⟩
  | some =>
    obtain ⟨d', s, hrun, hstor, havoids, hquiet⟩ : ∃ d' s, parameter c x d = .ok ((), d') ∧
        d'.storage = (x, s) :: d.storage ∧ s.Avoids D.spared ∧ d.Quiet c D.spared D.strict d' := by
      simp only [parameter, htype]
      refine ⟨_, _, rfl, rfl, ?_, .plain rfl rfl rfl (.inr ⟨_, rfl⟩) rfl rfl rfl rfl (Nat.le_succ _)
        rfl⟩
      have hfresh : d.registerCount ∉ D.spared := fun hmem => (hd.bound _ hmem).false
      split
      · exact hfresh
      · exact hfresh
    have hx : d'.Stores x := by simp [Draft.Stores, hstor]
    refine Ends.of_ok hrun ((hd.quiet hquiet (hsafe _ _ hrun).2 ?_).know hx)
    rw [hstor]
    exact forall_mem_cons.2 ⟨havoids, hd.apart⟩

lemma parameters_ends (h : ∀ x ∈ xs, (c.scopes.symbol x).type = none → E .untyped) :
    Ends E (Resting D known labels) (parameters c xs) fun _ =>
      Resting D (xs.reverse ++ known) labels := by
  induction xs generalizing known with
  | nil => exact .pure fun _ => id
  | cons _ _ ih =>
    rw [forall_mem_cons] at h
    rw [reverse_cons, append_assoc]
    exact (parameter_ends h.1).bind fun _ => ih h.2

/-- The register of the result is chosen, which the property must not be about. -/
lemma resultRegister_ends
    (hres : ∀ {labels d} r, D.own labels d → D.own labels { d with returnRegister := r })
    : Keeps D.toKeeping known [] labels (resultRegister c type) := by
  intro d hd
  obtain ⟨d', hrun, hstor, hquiet⟩ : ∃ d', resultRegister c type d = .ok ((), d') ∧
      d'.storage = d.storage ∧
        d.Quiet c D.spared D.strict { d' with returnRegister := d.returnRegister } := by
    unfold resultRegister
    split
    · exact ⟨_, rfl, rfl, .plain rfl rfl rfl (.inl rfl) rfl rfl rfl rfl (Nat.le_succ _) rfl⟩
    · split
      · exact ⟨_, rfl, rfl, .plain rfl rfl rfl (.inl rfl) rfl rfl rfl rfl le_rfl rfl⟩
      · exact ⟨_, rfl, rfl, .plain rfl rfl rfl (.inl rfl) rfl rfl rfl rfl (Nat.le_succ _) rfl⟩
  obtain ⟨hbelow, hsound⟩ := resultRegister_safe c type hd.sound _ _ hrun
  have hown := hres d'.returnRegister (D.quiet hd.own hquiet)
  exact Ends.of_ok hrun (hd.next hbelow hown hquiet.stores hsound (hstor ▸ hd.apart))

lemma leave_ends (hs : ∀ s ∈ cleanup, s.All (c.Passes E D.targets))
    (h : c.ClearsAll E D.strict known (cleanup.elim [] Stmt.emitted)) :
    Ends E (Resting D known (leaveLabel :: cleanup.elim [] Stmt.codeLabels)) (leave c cleanup)
      fun _ d => D.own [] d ∧ Ended d := by
  have hend (known : List SymbolId) : Ends E (Resting D known []) (do
      let d ← get
      emit { opcode := .ret, type := d.returnType, sources := d.returnRegister.toList })
      fun _ d => D.own [] d ∧ Ended d := fun d hd =>
    Ends.of_ok rfl ⟨D.quiet hd.own (.add _ nofun fun _ => rfl), ended_of_sound hd.sound⟩
  refine (defineLabel_ends _ _).bind fun _ => ?_
  cases cleanup with
  | none => exact hend known
  | some body =>
    refine .bind (.reorder (stmt_ends body (hs body rfl) h false) ?_) fun _ => hend _
    rw [List.append_nil]
    exact .refl _

lemma function_ends
    (hres : ∀ {labels d} r, D.own labels d → D.own labels { d with returnRegister := r })
    (hbody : f.body.All (c.Passes E D.targets))
    (hparams : ∀ x ∈ f.parameters, (c.scopes.symbol x).type = none → E .untyped)
    (h : c.ClearsAll E D.strict (f.parameters.reverse ++ known) f.emitted) :
    Ends E (Resting D known f.codeLabels) (function c f) fun _ d => D.own [] d ∧ Ended d := by
  obtain ⟨hfirst, hlast⟩ := Env.clearsAll_append.1 h
  have hstart : Keeps D.toKeeping known [] f.codeLabels
      (modify fun d => { d with addressTaken := addressTaken f.body }) := fun d hd =>
    Ends.of_ok rfl (hd.quiet (.plain rfl rfl rfl (.inl rfl) rfl rfl rfl rfl le_rfl rfl)
      { hd.sound with } hd.apart)
  refine .bind hstart fun _ => (parameters_ends hparams).bind fun _ =>
    (resultRegister_ends hres).bind fun _ => (stmt_ends f.body hbody hfirst true).bind fun _ => ?_
  exact leave_ends (fun s hs => Stmt.all_cleanup? hbody hs) hlast

lemma globals_ends (hs : ∀ g ∈ gs, g.statement.All (c.Passes E D.targets))
    (h : c.ClearsAll E D.strict known (gs.flatMap (·.statement.emitted))) :
    Ends E (Resting D known (gs.flatMap (·.statement.codeLabels) ++ labels)) (globals c gs)
      fun _ => Resting D ((gs.flatMap (·.statement.emitted)).foldl Expr.adds known) labels := by
  induction gs generalizing known with
  | nil => exact .pure fun _ => id
  | cons g _ ih =>
    rw [forall_mem_cons] at hs
    rw [flatMap_cons, Env.clearsAll_append] at h
    rw [flatMap_cons, flatMap_cons, foldl_append, append_assoc]
    exact (stmt_ends g.statement hs.1 h.1 false).bind fun _ => ih hs.2 h.2

lemma initializer_ends (hs : ∀ g ∈ gs, g.statement.All (c.Passes E D.targets))
    (h : c.ClearsAll E D.strict known (gs.flatMap (·.statement.emitted))) :
    Ends E (Resting D known (gs.flatMap (·.statement.codeLabels) ++ [leaveLabel])) (do
      globals c gs
      leave c none) fun _ d => D.own [] d ∧ Ended d := by
  have hnone : ∀ s ∈ (none : Option Stmt), s.All (c.Passes E D.targets) := fun _ => nofun
  exact (globals_ends hs h).bind fun _ => leave_ends hnone trivial

lemma empty_sound (name : String) (h : statics.Sound) : ({ name, statics } : Draft).Sound where
  fits := by simp
  noReturn := by simp
  branches := by simp
  pending := by simp
  ordered := .nil
  labels := by simp
  storage := by simp
  result := by simp
  parameters := le_rfl
  statics := h

lemma resting_start {name : String} (hspared : D.spared = none) (h : D.own labels { name, statics })
    (hknown : ∀ x ∈ known, ({ name, statics } : Draft).Stores x) (hs : statics.Sound) :
    Resting D known labels { name, statics } where
  own := h
  stores := hknown
  sound := empty_sound name hs
  bound := by simp [hspared]
  apart := nofun
  held := nofun

lemma layoutGlobals_sound (c : Env) (hstat : statics.Sound)
    (h : layoutGlobals c gs statics = .ok statics') : statics'.Sound := by
  induction gs generalizing statics with
  | nil =>
    cases h
    exact hstat
  | cons g _ ih =>
    simp only [layoutGlobals] at h
    split at h
    · cases h
    · next type _ =>
      refine ih ?_ h
      obtain ⟨-, hsound, hname⟩ := allocate_sound hstat (c.scopes.symbol g.symbol).name
        (c.types.size type) []
      refine ⟨fun entry hmem => ?_, hsound.texts⟩
      obtain hmem | rfl := mem_append.1 hmem |>.imp_right mem_singleton.1
      · exact hsound.symbols entry hmem
      · exact hname

lemma resolveBranches_fails {method : String} {labels : Labels}
    (h : resolveBranches method labels pending code = .error error) :
    ∃ entry ∈ pending, labels.find? entry.2 = none ∧ error = .undefinedLabel method entry.2 := by
  induction pending generalizing code with
  | nil => cases h
  | cons entry _ ih =>
    rw [resolveBranches] at h
    split at h
    · next hfind =>
      cases h
      exact ⟨entry, (.head _), hfind, rfl⟩
    · obtain ⟨found, hmem, hfound⟩ := ih h
      exact ⟨found, .tail _ hmem, hfound⟩

/-- The variables of a module have places, and these names. -/
def Lists (symbols : List (SymbolId × String)) (statics : StaticLayout) : Prop :=
  statics.Sound ∧ statics.symbols = symbols

/-- A method that is made, or not made because of certain errors only. -/
def Fits (E : CompileError → Prop) (symbols : List (SymbolId × String)) (name : String)
    (code : Gen Unit) : Prop :=
  ∀ statics, Lists symbols statics → ∀ error, method statics name code = .error error → E error

lemma Ends.fits {name : String} (h : Ends E (Resting D known labels) code fun _ d => D.own [] d ∧ Ended d)
    (hspared : D.spared = none) (hstart : ∀ statics, D.own labels { name, statics })
    (hknown : ∀ x ∈ known, (symbols.lookup x).isSome) : Fits E symbols name code := by
  intro statics ⟨hsound, hsyms⟩ error hrun
  have hstores (x : SymbolId) (hx : x ∈ known) : ({ name, statics } : Draft).Stores x := by
    show ((statics.symbols.lookup x).map Storage.static).isSome = true
    rw [hsyms, Option.isSome_map]
    exact hknown x hx
  obtain ⟨herror, hok⟩ := h _ (resting_start hspared (hstart statics) hstores hsound)
  obtain hcode | ⟨⟨_, d⟩, hcode, hrun⟩ := error_of_bind hrun
  · exact herror error hcode
  obtain hfin | ⟨m, -, hrun⟩ := error_of_bind hrun
  · obtain hresolve | ⟨code, -, hrun⟩ := error_of_bind hfin
    · obtain ⟨entry, hentry, hfind, rfl⟩ := resolveBranches_fails hresolve
      exact D.finish (hok () d hcode).1 (mem_reverse.1 hentry) hfind _
    · cases hrun
  · cases hrun

def staticNames (c : Env) (gs : List Global) : List (SymbolId × String) :=
  gs.map fun g => (g.symbol, (c.scopes.symbol g.symbol).name)

lemma isSome_lookup_staticNames (h : x ∈ gs.map (·.symbol)) :
    ((staticNames c gs).lookup x).isSome := by
  induction gs with
  | nil => cases h
  | cons _ _ ih =>
    rw [staticNames, map_cons, lookup_cons]
    split
    · rfl
    · next hne =>
      obtain rfl | h := mem_cons.1 h
      · simp at hne
      · exact ih h

lemma layoutGlobals_fails (h : ∀ g ∈ gs, (c.scopes.symbol g.symbol).type = none → E .untyped)
    (hrun : layoutGlobals c gs statics = .error error) : E error := by
  induction gs generalizing statics with
  | nil => cases hrun
  | cons _ _ ih =>
    rw [forall_mem_cons] at h
    rw [layoutGlobals] at hrun
    split at hrun
    · next hnone =>
      cases hrun
      exact h.1 hnone
    · exact ih h.2 hrun

lemma symbols_of_layoutGlobals (hrun : layoutGlobals c gs statics = .ok statics') :
    statics'.symbols = statics.symbols ++ staticNames c gs := by
  induction gs generalizing statics with
  | nil =>
    cases hrun
    exact (append_nil _).symm
  | cons _ rest ih =>
    rw [layoutGlobals] at hrun
    split at hrun
    · cases hrun
    · rw [ih hrun]
      rw [append_assoc]
      rfl

end Gen

end Code

open Code

lemma Program.mem_functions : f ∈ p.functions ↔ .function f ∈ p.items := by
  constructor
  · intro h
    obtain ⟨i, hi, hf⟩ := mem_filterMap.1 h
    cases i <;> cases hf
    exact hi
  · exact fun h => mem_filterMap.2 ⟨_, h, rfl⟩

lemma Program.mem_globals : g ∈ p.globals ↔ .global g ∈ p.items := by
  constructor
  · intro h
    obtain ⟨i, hi, hg⟩ := mem_filterMap.1 h
    cases i <;> cases hg
    exact hi
  · exact fun h => mem_filterMap.2 ⟨_, h, rfl⟩

end CompilerCore
