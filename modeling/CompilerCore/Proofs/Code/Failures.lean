import CompilerCore.Proofs.Analysis.Bodies
import CompilerCore.Proofs.Code.Growth

/-!
# Why no code is made

The errors that a node has on its own (its *flaws*) can be told from the node and its parts: it has no
type, say, it should have been lowered, or it needs a value that a part does not have.  What is left
depends on the method so far: a name may have no storage yet, and a label may be defined twice.

Making code keeps any property of drafts that says where names are stored and which labels are still
to be defined, as long as it is preserved by the few steps that change those.  Such a property decides
which of the remaining errors there can be.
-/

namespace CompilerCore

open CompilerCore.Expr List Option

/-! ## Flaws -/

def Code.Env.result? (c : Code.Env) (x : SymbolId) : Option TypeId :=
  match (c.scopes.symbol x).type with
  | none => none
  | some type =>
    match c.types.shape type with
    | .function result _ _ => some result
    | _ => none

/-- Numbers have no operations on bits. -/
def BinaryOp.Suits (type : Code.OperandType) : BinaryOp → Prop
  | arith op => type.kind ≠ .float ∨ op.group = .numeric
  | compare _ | and | or => True

namespace Expr

/-- Whether the code of a node leaves a value. -/
def hasValue (c : Code.Env) : Expr → Bool
  | conditional note .. => note.type.all fun type => !(c.operand type).isVoid
  | call _ _ (some x) _ => (c.result? x).all fun result => !(c.operand result).isVoid
  | call _ _ none _ => false
  | cast _ _ target _ => !c.types.isVoid target
  | declare _ _ initializer => initializer.isSome
  | literal .. | name .. | binary .. | unary .. | member .. | qualified .. | index .. | collection ..
  | assign .. | update .. | sizeOf .. => true

/-- The parts of an expression whose values its code uses. -/
def needs (c : Code.Env) : Expr → List Expr
  | binary _ _ lhs rhs => [lhs, rhs]
  | unary _ _ operand => [operand]
  | conditional _ condition _ _ => [condition]
  | member _ object _ _ => [object]
  | call _ _ (some _) arguments => arguments
  | index _ base position => [base, position]
  | collection _ elements => elements
  | cast _ operand target _ => if c.types.isVoid target then [] else [operand]
  | assign _ target value => [target, value]
  | declare _ _ initializer => initializer.toList
  | call _ _ none _ | literal .. | name .. | qualified .. | update .. | sizeOf .. => []

/-- A fault of an expression itself, with the error that its code ends in. -/
def Flaw (c : Code.Env) (error : Code.CompileError) (e : Expr) : Prop :=
  (e.type? = none ∧ error = .untyped) ∨
  ((∃ part ∈ e.needs c, part.hasValue c = false) ∧ error = .voidValue) ∨ match e with
    | name _ text none => error = .unresolved text
    | member _ object text throughPointer =>
      (object.owner? c.types throughPointer >>= (c.types.member? · text)) = none ∧
        error = .unknownMember text
    | qualified .. => error = .unlowered .qualified
    | call _ callee none _ =>
      (callee ≠ ControlFlow.abortName ∧ callee ≠ Code.Gen.debugTrapName) ∧ error = .unresolved callee
    | call _ callee (some x) _ =>
      ((c.scopes.symbol x).type = none ∧ error = .untyped) ∨
        (c.result? x = none ∧ error = .unresolved callee)
    | collection note _ => (note.type >>= c.types.element?) = none ∧ error = .untyped
    | update .. => error = .unlowered .update
    | declare _ x _ => (c.scopes.symbol x).type = none ∧ error = .untyped
    | sizeOf .. => error = .unlowered .sizeOf
    | name _ _ (some _) | literal .. | binary .. | unary .. | conditional .. | index .. | cast ..
    | assign .. => False

/-- A name stands for a function or for one of certain variables. -/
def Names (scopes : ScopeTree) (known : List SymbolId) : Expr → Prop
  | name _ _ (some x) => (scopes.symbol x).kind = .function ∨ x ∈ known
  | _ => True

/-- The operator of a node has an operation in the register form of its type. -/
def Suits (t : TypeTable) : Expr → Prop
  | binary note op _ _ => ∀ type ∈ note.type, op.Suits (Code.OperandType.of t type)
  | unary note .complement _ => ∀ type ∈ note.type, (Code.OperandType.of t type).kind ≠ .float
  | _ => True

end Expr

namespace Code

/-- Whatever is wrong with a node is an admitted error, and it names known variables, unless it may
name others as well.  Its operator suits its type, if that is asked for. -/
def Env.Clears (c : Env) (E : CompileError → Prop) (strict : Prop) (known : List SymbolId) (e : Expr) :
    Prop :=
  (∀ error, e.Flaw c error → E error) ∧ (e.Names c.scopes known ∨ ∀ name, E (.unresolved name)) ∧
    (strict → e.Suits c.types)

/-! ## Drafts -/

/-- A place that is not a given register. -/
def Storage.Avoids (spared : Option Nat) : Storage → Prop
  | .register r | .indirect r => r.index ∉ spared
  | .block _ | .static _ => True

lemma Storage.avoids_none (s : Storage) : s.Avoids none := by
  cases s <;> simp [Storage.Avoids]

namespace Draft

/-- A symbol has storage, in the frame or among the statics. -/
def Stores (d : Draft) (x : SymbolId) : Prop :=
  (d.storage.lookup x <|> (d.statics.symbols.lookup x).map Storage.static).isSome

def labelName (d : Draft) : String := "$L" ++ toString d.nextLabel

/-- Every instruction of a draft has all its parts. -/
def Formed (d : Draft) : Prop := ∀ i ∈ d.instructions, i.isFormed = true

/-- A change that concerns neither labels nor the register of the result, and takes nothing away.  No
instruction that it makes or changes writes to a given register, and all are formed, if that is asked
for. -/
structure Quiet (c : Env) (spared : Option Nat) (strict : Prop) (d d' : Draft) : Prop where
  labels : d'.labels = d.labels
  branches : d'.pendingBranches = d.pendingBranches
  nextLabel : d'.nextLabel = d.nextLabel
  stores : ∀ x, d.Stores x → d'.Stores x
  size : d.instructions.size ≤ d'.instructions.size
  allocates : d.Allocates c d'
  below : d.Below d'
  spares : ∀ (j : Nat) (i : Instruction), d'.instructions[j]? = some i →
    d.instructions[j]? = some i ∨ ∀ r ∈ i.destination, r.index ∉ spared
  result : d'.returnRegister = d.returnRegister
  formed : strict → d.Formed → d'.Formed

variable {c : Env} {spared : Option Nat} {strict : Prop} {d d' : Draft}

/-- A change of registers, parameters and the result, and perhaps a place for one more symbol. -/
lemma Quiet.plain (hlabs : d'.labels = d.labels) (hbranches : d'.pendingBranches = d.pendingBranches)
    (hnextLabel : d'.nextLabel = d.nextLabel)
    (hstor : d'.storage = d.storage ∨ ∃ entry, d'.storage = entry :: d.storage)
    (hcode : d'.instructions = d.instructions) (hname : d'.name = d.name)
    (hblocks : d'.blocks = d.blocks) (hstat : d'.statics = d.statics)
    (hregs : d.registerCount ≤ d'.registerCount)
    (hres : d'.returnRegister = d.returnRegister) : d.Quiet c spared strict d' where
  labels := hlabs
  branches := hbranches
  nextLabel := hnextLabel
  stores x hx := by
    obtain hstor | ⟨entry, hstor⟩ := hstor
    · rwa [Stores, hstor, hstat]
    · rw [Stores, hstor, hstat, lookup_cons]
      split
      · rfl
      · exact hx
  size := hcode ▸ le_rfl
  allocates := .same hname hblocks hstat
  below := ⟨hregs, hblocks ▸ le_rfl, hstat ▸ List.Subset.refl _⟩
  spares j i hi := .inl (hcode ▸ hi)
  result := hres
  formed _ h := by rwa [Formed, hcode]

lemma Quiet.add (d : Draft) (h : ∀ r ∈ i.destination, r.index ∉ spared)
    (hi : strict → i.isFormed = true) : d.Quiet c spared strict (d.add i) where
  labels := rfl
  branches := rfl
  nextLabel := rfl
  stores _ := id
  size := by simp
  allocates := .same rfl rfl rfl
  below := ⟨le_rfl, le_rfl, List.Subset.refl _⟩
  spares j k hk := by
    rw [Draft.add, Array.getElem?_push] at hk
    split at hk
    · cases hk
      exact .inr h
    · exact .inl hk
  result := rfl
  formed hstrict hd k hk := (Array.mem_push.1 hk).elim (hd k) (· ▸ hi hstrict)

lemma Quiet.retarget (d : Draft) (h : target.index ∉ spared) :
    d.Quiet c spared strict (d.retarget target) where
  labels := rfl
  branches := rfl
  nextLabel := rfl
  stores _ := id
  size := by simp
  allocates := .same rfl rfl rfl
  below := ⟨le_rfl, le_rfl, List.Subset.refl _⟩
  spares j i hi := by
    rw [Draft.retarget, Array.getElem?_modify] at hi
    split at hi
    · obtain ⟨k, -, rfl⟩ := map_eq_some_iff.1 hi
      refine .inr fun r hr => ?_
      cases hr
      exact h
    · exact .inl hi
  result := rfl
  formed _ hd i hi := by
    obtain ⟨n, hn, rfl⟩ := Array.mem_iff_getElem.1 hi
    simp only [Draft.retarget, Array.getElem_modify]
    split
    · exact Instruction.isFormed_retarget (hd _ (Array.getElem_mem _)) target
    · exact hd _ (Array.getElem_mem _)

lemma stores_cons {storage : Storage} :
    Stores { d with storage := (x, storage) :: d.storage } x := by
  simp [Stores]

end Draft

/-- A property of drafts in which certain labels are still to be defined, and which making code keeps.
The code may fail with certain errors. -/
structure Keeping (c : Env) (E : CompileError → Prop) where
  spared : Option Nat
  strict : Prop
  own : List String → Draft → Prop
  quiet : ∀ {labels d d'}, own labels d → d.Quiet c spared strict d' → own labels d'
  newLabel : ∀ {labels d}, own labels d → own (d.labelName :: labels) d.addLabelName
  branch : ∀ {labels d label}, own labels d → label ∈ labels → ∀ i, i.destination = none →
    i.isFormed = true → own labels (d.addBranch i label)
  duplicate : ∀ {labels d label offset}, own (label :: labels) d →
    d.labels.find? label = some offset → ∀ method, E (.duplicateLabel method label)
  define : ∀ {labels d label}, own (label :: labels) d → d.labels.find? label = none →
    own labels (d.addLabel label)
  perm : ∀ {labels labels' d}, own labels d → labels.Perm labels' → own labels' d

variable {c : Env} {E : CompileError → Prop} {K : Keeping c E} {known : List SymbolId}
  {held held' : List Storage} {labels labels' : List String}

/-- A sound draft with such a property, in which certain variables and places exist.  None of the places
is the spared register. -/
structure Holding (K : Keeping c E) (known : List SymbolId) (held : List Storage)
    (labels : List String) (d : Draft) : Prop where
  own : K.own labels d
  stores : ∀ x ∈ known, d.Stores x
  sound : d.Sound
  bound : ∀ k ∈ K.spared, k < d.registerCount
  apart : ∀ entry ∈ d.storage, entry.2.Avoids K.spared
  held : ∀ s ∈ held, d.HasStorage s ∧ s.Avoids K.spared

namespace Holding

variable {d d' : Draft} {s : Storage} (h : Holding K known held labels d)

include h

lemma sub (hsub : ∀ s ∈ held', s ∈ held) :
    Holding K known held' labels d :=
  { h with held := fun s hs => h.held s (hsub s hs) }

lemma hold (hs : d.HasStorage s ∧ s.Avoids K.spared) :
    Holding K known (s :: held) labels d :=
  { h with held := forall_mem_cons.2 ⟨hs, h.held⟩ }

lemma know (hx : d.Stores x) :
    Holding K (x :: known) held labels d :=
  { h with stores := forall_mem_cons.2 ⟨hx, h.stores⟩ }

lemma next (hbelow : d.Below d') (hown : K.own labels' d')
    (hstores : ∀ x, d.Stores x → d'.Stores x) (hsound : d'.Sound)
    (hapart : ∀ entry ∈ d'.storage, entry.2.Avoids K.spared) : Holding K known held labels' d' where
  own := hown
  stores x hx := hstores x (h.stores x hx)
  sound := hsound
  bound k hk := (h.bound k hk).trans_le hbelow.registers
  apart := hapart
  held s hs := (h.held s hs).imp_left hbelow.hasStorage

lemma quiet (hquiet : d.Quiet c K.spared K.strict d')
    (hsound : d'.Sound) (hapart : ∀ entry ∈ d'.storage, entry.2.Avoids K.spared) :
    Holding K known held labels d' :=
  h.next hquiet.below (K.quiet h.own hquiet) hquiet.stores hsound hapart

lemma register (hr : .register r ∈ held) :
    r.index < d.registerCount ∧ r.index ∉ K.spared :=
  h.held _ hr

lemma stored
    (hs : (d.storage.lookup x <|> (d.statics.symbols.lookup x).map .static) = some s) :
    d.HasStorage s ∧ s.Avoids K.spared := by
  cases hlook : d.storage.lookup x with
  | some s' =>
    obtain rfl : s' = s := by simpa [hlook] using hs
    exact ⟨h.sound.storage _ (mem_of_lookup hlook), h.apart _ (mem_of_lookup hlook)⟩
  | none =>
    obtain ⟨name, hname, rfl⟩ : ∃ name, d.statics.symbols.lookup x = some name ∧
        Storage.static name = s := by simpa [hlook] using hs
    exact ⟨h.sound.statics.symbols _ (mem_of_lookup hname), trivial⟩

lemma store (x : SymbolId) (hs : d.HasStorage s ∧ s.Avoids K.spared) :
    Holding K (x :: known) held labels { d with storage := (x, s) :: d.storage } := by
  have hquiet : d.Quiet c K.spared K.strict { d with storage := (x, s) :: d.storage } :=
    .plain rfl rfl rfl (.inr ⟨_, rfl⟩) rfl rfl rfl rfl le_rfl rfl
  refine (h.quiet hquiet { h.sound with storage := ?_ } ?_).know (d.stores_cons)
  · exact forall_mem_cons.2 ⟨hs.1, h.sound.storage⟩
  · exact forall_mem_cons.2 ⟨hs.2, h.apart⟩

end Holding

namespace Gen

variable {α : Type}

/-- A step that, from drafts with one property, ends with certain errors or leads to drafts with
another property. -/
def Ends (E : CompileError → Prop) (P : Draft → Prop) (m : Gen α) (Q : α → Draft → Prop) : Prop :=
  ∀ d, P d → (∀ error, m d = .error error → E error) ∧ ∀ a d', m d = .ok (a, d') → Q a d'

namespace Ends

variable {P P' : Draft → Prop} {Q Q' : α → Draft → Prop}

lemma pure (h : ∀ d, P d → Q a d) : Ends E P (Pure.pure a) Q := by
  intro d hd
  refine ⟨nofun, fun a' d' hrun => ?_⟩
  cases hrun
  exact h d hd

lemma throw (h : E error) : Ends E P (MonadExcept.throw error : Gen α) Q := by
  refine fun d _ => ⟨fun error' hrun => ?_, nofun⟩
  cases hrun
  exact h

/-- What would come after a failure does not matter. -/
lemma throw_bind (h : E error) : Ends E P ((MonadExcept.throw error : Gen α) >>= f) R := by
  refine fun d _ => ⟨fun error' hrun => ?_, nofun⟩
  cases hrun
  exact h

variable {m : Gen α}

lemma bind (h : Ends E P m Q) (hf : ∀ a, Ends E (Q a) (f a) R) : Ends E P (m >>= f) R := by
  intro d hd
  obtain ⟨herror, hok⟩ := h d hd
  constructor
  · intro error hrun
    obtain hm | ⟨⟨a, d'⟩, hm, hrun⟩ := error_of_bind hrun
    · exact herror error hm
    · exact (hf a d' (hok a d' hm)).1 error hrun
  · intro b d'' hrun
    obtain ⟨a, d', hm, hrun⟩ := bind_eq_ok hrun
    exact (hf a d' (hok a d' hm)).2 b d'' hrun

lemma ite [Decidable p] (h : Ends E P m Q) (h' : Ends E P m' Q) :
    Ends E P (if p then m else m') Q := by
  split
  · exact h
  · exact h'

lemma map (h : Ends E P m fun a => R (f a)) : Ends E P (f <$> m) R :=
  h.bind fun _ => .pure fun _ => id

lemma get (h : ∀ d, P d → Ends E (· = d) (f d) R) : Ends E P (MonadState.get >>= f) R :=
  fun d hd => h d hd d rfl

/-- Of the draft only the property matters. -/
lemma here (hd : P d) (h : Ends E P m Q) : Ends E (· = d) m Q := by
  rintro _ rfl
  exact h _ hd

lemma pure_here (h : Q a d) : Ends E (· = d) (Pure.pure a) Q :=
  .pure fun _ heq => heq ▸ h

lemma update (h : ∀ d, P d → Q (f d).1 (f d).2) : Ends E P (modifyGet f : Gen α) Q := by
  intro d hd
  refine ⟨nofun, fun a d' hrun => ?_⟩
  have hrun : f d = (a, d') := Except.ok.inj hrun
  have hQ := h d hd
  rwa [hrun] at hQ

lemma imp (h : Ends E P m Q) (hP : ∀ d, P' d → P d) (hQ : ∀ a d, Q a d → Q' a d) : Ends E P' m Q' :=
  fun d hd => ⟨(h d (hP d hd)).1, fun a d' hrun => hQ a d' ((h d (hP d hd)).2 a d' hrun)⟩

lemma of_ok (hrun : m d = .ok (a, d')) (h : Q a d') :
    (∀ error, m d = .error error → E error) ∧ ∀ a d', m d = .ok (a, d') → Q a d' := by
  rw [hrun]
  refine ⟨nofun, fun b d'' heq => ?_⟩
  cases heq
  exact h

end Ends

/-- Code that leaves what exists and the labels to the code around it. -/
abbrev Keeps (K : Keeping c E) (known : List SymbolId) (held : List Storage) (labels : List String)
    (m : Gen α) : Prop :=
  Ends E (Holding K known held labels) m fun _ => Holding K known held labels

/-- Code that ends in an error of `E` or puts a value in a register, holding on to all it held. -/
abbrev Supplies (K : Keeping c E) (known : List SymbolId) (held : List Storage) (labels : List String)
    (m : Gen Register) : Prop :=
  Ends E (Holding K known held labels) m fun r => Holding K known (.register r :: held) labels

/-- Code that supplies a value whatever is held before it. -/
def Values (K : Keeping c E) (known : List SymbolId) (m : Gen Register) : Prop :=
  ∀ held labels, Supplies K known held labels m

/-- A value that may be missing, unless it is certain. -/
def Gives (K : Keeping c E) (known : List SymbolId) (held : List Storage) (labels : List String)
    (isCertain : Bool) (o : Option Register) (d : Draft) : Prop :=
  (isCertain = true → o.isSome) ∧ Holding K known (o.toList.map .register ++ held) labels d

/-- Code for a value that may be missing, unless it is certain. -/
def Options (K : Keeping c E) (known : List SymbolId) (isCertain : Bool) (m : Gen (Option Register)) :
    Prop :=
  ∀ held labels, Ends E (Holding K known held labels) m (Gives K known held labels isCertain)

def Place.storage : Place → Storage
  | .register r | .memory r => .register r

/-- Code that ends in an error of `E` or gives a place, whatever is held before it. -/
def Places (K : Keeping c E) (known : List SymbolId) (m : Gen Place) : Prop :=
  ∀ held labels, Ends E (Holding K known held labels) m fun p =>
    Holding K known (p.storage :: held) labels

namespace Ends

variable {P : Draft → Prop}

lemma drop (h : Ends E P m fun r => Holding K known (.register r :: held) labels)
    (hsub : ∀ s ∈ held', s ∈ held) :
    Ends E P m fun r => Holding K known (.register r :: held') labels := by
  refine h.imp (fun _ => id) fun r d hd => hd.sub fun s hs => ?_
  obtain rfl | hs := mem_cons.1 hs
  · exact .head _
  · exact .tail _ (hsub s hs)

lemma use (h : Ends E (Holding K known held' labels) m Q) (hsub : ∀ s ∈ held', s ∈ held) :
    Ends E (Holding K known held labels) m Q :=
  h.imp (fun _ hd => hd.sub hsub) fun _ _ => id

lemma some (h : Ends E P m fun r => Holding K known (.register r :: held) labels) :
    Ends E P (some <$> m) (Gives K known held labels isCertain) :=
  .map (h.imp (fun _ => id) fun _ _ hd => ⟨fun _ => rfl, hd⟩)

lemma given (h : (isCertain = true → o.isSome) →
    Ends E (Holding K known (o.toList.map .register ++ held) labels) m Q) :
    Ends E (Gives K known held labels isCertain o) m Q :=
  fun d hd => h hd.1 d hd.2

lemma again (hr : .register r ∈ held) : Supplies K known held labels (Pure.pure r) :=
  .pure fun _ hd => hd.sub (forall_mem_cons.2 ⟨hr, fun _ => id⟩)

end Ends

variable {isCertain : Bool} {dest : Register} {strict : Prop} {P : Draft → Prop}

lemma Values.some (h : Values K known m) : Options K known isCertain (some <$> m) :=
  fun held labels => (h held labels).some

/-! ## Steps -/

lemma moveInto_ok (hd : d.Sound) (hdest : dest.index < d.registerCount)
    (hspared : dest.index ∉ spared) (hsrc : source.index < d.registerCount) (type : OperandType) :
    ∃ d', moveInto dest source type d = .ok ((), d') ∧ d'.Sound ∧ d.Quiet c spared strict d' ∧
      d'.storage = d.storage := by
  unfold moveInto
  split
  · exact ⟨d, rfl, hd, .plain rfl rfl rfl (.inl rfl) rfl rfl rfl rfl le_rfl rfl, rfl⟩
  · show ∃ d', (if source.storage = .temporary ∧ _ then _ else _ : Gen Unit) d = .ok ((), d') ∧ _
    split
    · exact ⟨d.retarget dest, rfl, hd.retarget hdest _, .retarget d hspared, rfl⟩
    · refine ⟨d.add _, rfl, (emit_ordinary_safe hd (by trivial) ?_ _ _ rfl).2,
        .add d ?_ fun _ => rfl, rfl⟩
      · simp [Instruction.registers, hdest, hsrc]
      · rintro _ ⟨⟩
        exact hspared

/-- An ordinary instruction that is formed, if that is asked for. -/
def Takes (K : Keeping c E) (i : Instruction) : Prop :=
  Ordinary i.opcode ∧ (K.strict → i.isFormed = true)

lemma quiet_ends (hm : m = modifyGet f)
    (hquiet : ∀ d, Holding K known held labels d → d.Quiet c K.spared K.strict (f d).2)
    (hstor : ∀ d, (f d).2.storage = d.storage)
    (hsound : ∀ d, Holding K known held labels d → (f d).2.Sound) :
    Keeps K known held labels m := by
  subst hm
  refine .update fun d hd => hd.quiet (hquiet d hd) (hsound d hd) ?_
  rw [hstor]
  exact hd.apart

lemma emit_fits (hplain : Plain i) (hform : K.strict → i.isFormed = true)
    (hfits : ∀ d, Holding K known held labels d → d.Fits i)
    (hdest : ∀ r ∈ i.destination, .register r ∈ held) : Keeps K known held labels (emit i) :=
  quiet_ends rfl (fun d hd => .add d (fun r hr => (hd.register (hdest r hr)).2) hform)
    (fun _ => rfl) fun d hd => hd.sound.emit (hfits d hd) hplain.1 hplain.2

lemma emit_ends (hi : Takes K i) (hregs : ∀ r ∈ i.registers, .register r ∈ held) :
    Keeps K known held labels (emit i) := by
  refine emit_fits hi.1.plain hi.2 (fun d hd => ?_) fun r hr => hregs r ?_
  · exact .of_registers (fun r hr => (hd.register (hregs r hr)).1) hi.1.takesNoAddress
  · exact mem_append_left _ (mem_toList.2 hr)

lemma register_ends : Supplies K known held labels (register storage) := by
  refine .update fun d hd => ?_
  obtain ⟨-, hsound⟩ := register_safe hd.sound storage _ _ rfl
  have hquiet : d.Quiet c K.spared K.strict { d with registerCount := d.registerCount + 1 } :=
    .plain rfl rfl rfl (.inl rfl) rfl rfl rfl rfl (Nat.le_succ _) rfl
  refine (hd.quiet hquiet hsound hd.apart).hold ⟨Nat.lt_succ_self _, ?_⟩
  exact fun hk => lt_irrefl _ (hd.bound _ hk)

lemma resultOf_fits (hplain : ∀ r, Plain (make r)) (hform : ∀ r, (make r).isFormed = true)
    (hdest : ∀ r, (make r).destination = some r)
    (hfits : ∀ r d, Holding K known (.register r :: held) labels d → d.Fits (make r)) :
    Supplies K known held labels (resultOf make) := by
  refine register_ends.bind fun r => (emit_fits (hplain r) (fun _ => hform r) (hfits r)
    ?_).bind fun _ => .pure fun _ => id
  rw [hdest]
  rintro _ ⟨⟩
  exact .head _

/-- The result of an ordinary instruction on registers that exist.  Not all that exists need be used
further on. -/
lemma resultOf_ends (sources : List Register) (hsub : ∀ s ∈ held', s ∈ held)
    (hsrcs : ∀ s ∈ sources, .register s ∈ held)
    (hmake : ∀ r, Takes K (make r) ∧ (make r).registers = r :: sources) :
    Ends E (Holding K known held labels) (resultOf make) fun r =>
      Holding K known (.register r :: held') labels := by
  refine .drop (register_ends.bind fun r =>
    (emit_ends (hmake r).1 fun s hs => ?_).bind fun _ => .pure fun _ => id) hsub
  rw [(hmake r).2, mem_cons] at hs
  exact hs.elim (fun h => h ▸ .head _) fun h => .tail _ (hsrcs s h)

lemma allocateBlock_ends : Ends E (Holding K known held labels) (allocateBlock c size) fun index =>
      Holding K known (.block index :: held) labels := by
  refine .update fun d hd => ?_
  have hbelow : d.Below { d with blocks := addBlock c d.blocks size } :=
    ⟨le_rfl, by simp [addBlock], List.Subset.refl _⟩
  have hquiet : d.Quiet c K.spared K.strict { d with blocks := addBlock c d.blocks size } :=
    ⟨rfl, rfl, rfl, fun _ => id, le_rfl, ⟨rfl, ⟨[size], rfl⟩, ⟨[], rfl⟩⟩, hbelow, fun _ _ => .inl, rfl,
      fun _ => id⟩
  have hsound : ({ d with blocks := addBlock c d.blocks size } : Draft).Sound :=
    hd.sound.grow hbelow rfl rfl rfl (fun entry h => hbelow.hasStorage (hd.sound.storage entry h))
      hd.sound.result hd.sound.parameters hd.sound.statics
  refine (hd.quiet hquiet hsound hd.apart).hold ⟨?_, trivial⟩
  show d.blocks.length < (addBlock c d.blocks size).length
  simp [addBlock]

lemma blockAddress_ends {index : Nat} (hindex : .block index ∈ held) :
    Supplies K known held labels (blockAddress index) :=
  resultOf_fits (fun _ => ⟨nofun, rfl⟩) (fun _ => rfl) (fun _ => rfl) fun r d hd =>
    ⟨by simpa [Instruction.registers] using (hd.register (.head _)).1, nofun,
      fun _ => ⟨index, (hd.held _ (.tail _ hindex)).1, rfl⟩, nofun⟩

lemma staticAddress_ends {name : String} (hname : .static name ∈ held) :
    Supplies K known held labels (staticAddress name) :=
  resultOf_fits (fun _ => ⟨nofun, rfl⟩) (fun _ => rfl) (fun _ => rfl) fun r d hd =>
    ⟨by simpa [Instruction.registers] using (hd.register (.head _)).1, nofun, nofun,
      fun _ => ⟨name, rfl, (hd.held _ (.tail _ hname)).1⟩⟩

/-! ### Labels -/

lemma newLabel_ends (held : List Storage) (labels : List String) :
    Ends E (Holding K known held labels) newLabel fun label =>
      Holding K known held (label :: labels) := by
  refine .update fun d hd => ?_
  obtain ⟨hbelow, hsound⟩ := newLabel_safe hd.sound _ _ rfl
  exact hd.next hbelow (K.newLabel hd.own) (fun _ => id) hsound hd.apart

variable {label : String} {opcode : Opcode} {x : SymbolId} {e : Expr} {value : Gen Register}

lemma branch_ends {cond : Option Register} (hop : opcode.isBranch = true)
    (hform : opcode = .jump ∨ cond.isSome)
    (hcond : ∀ r ∈ cond, .register r ∈ held) (type : OperandType)
    (h : ∀ d i, i.destination = none → i.isFormed = true → Holding K known held labels d →
      K.own labels (d.addBranch i label)) :
    Keeps K known held labels (branch opcode cond type label) := by
  refine fun d hd => ⟨nofun, fun _ d' hrun => ?_⟩
  obtain ⟨hbelow, hsound⟩ := branch_safe hd.sound hop
    (fun r hr => (hd.register (hcond r hr)).1) type label _ _ hrun
  cases hrun
  exact hd.next hbelow (h d _ rfl (Instruction.isFormed_branch hop hform type) hd) (fun _ => id)
    hsound hd.apart

lemma branch_keeps (hop : opcode.isBranch = true) (htest : .register test ∈ held)
    (type : OperandType) (h : label ∈ labels) :
    Keeps K known held labels (branch opcode (some test) type label) :=
  branch_ends hop (.inr rfl) (by rintro _ ⟨⟩; exact htest) type fun _ i hi hform hd =>
    K.branch hd.own h i hi hform

lemma jump_keeps (h : label ∈ labels) : Keeps K known held labels (jump label) :=
  branch_ends rfl (.inl rfl) (by simp) .void fun _ i hi hform hd => K.branch hd.own h i hi hform

lemma defineLabel_ends (label : String) (labels : List String) :
    Ends E (Holding K known held (label :: labels)) (defineLabel label) fun _ =>
      Holding K known held labels := by
  refine .get fun d hd => ?_
  split
  · next hfind => exact .throw (K.duplicate hd.own hfind _)
  · next hfind =>
    refine .update fun d' hd' => ?_
    subst hd'
    exact hd.next ⟨le_rfl, le_rfl, List.Subset.refl _⟩ (K.define hd.own hfind) (fun _ => id)
      (addLabel_sound hd.sound label) hd.apart

/-! ### Moves and memory -/

lemma moveInto_ends (hdest : .register dest ∈ held)
    (hsrc : .register source ∈ held) :
    Keeps K known held labels (moveInto dest source type) := by
  intro d hd
  obtain ⟨d', hrun, hsound, hquiet, hstor⟩ := moveInto_ok hd.sound (hd.register hdest).1
    (hd.register hdest).2 (hd.register hsrc).1 type
  exact Ends.of_ok hrun (hd.quiet hquiet hsound (hstor ▸ hd.apart))

lemma offsetAddress_ends (hbase : .register base ∈ held) (offset : Int64) :
    Supplies K known held labels (offsetAddress base offset) := by
  unfold offsetAddress
  split
  · exact .again hbase
  · exact resultOf_ends [base] (fun _ => id) (by simpa using hbase)
      fun _ => ⟨⟨trivial, fun _ => rfl⟩, rfl⟩

lemma copyBlock_ends (hdest : .register dest ∈ held)
    (hsrc : .register source ∈ held) :
    Keeps K known held labels (copyBlock dest source size) :=
  emit_ends ⟨trivial, fun _ => rfl⟩ (by simp [Instruction.registers, hdest, hsrc])

lemma loadOrAddress_ends (haddress : .register address ∈ held) :
    Supplies K known held labels (loadOrAddress c address type access) := by
  unfold loadOrAddress
  split
  · exact .again haddress
  · exact resultOf_ends [address] (fun _ => id) (by simpa using haddress)
      fun _ => ⟨⟨trivial, fun _ => rfl⟩, rfl⟩

lemma read_ends {place : Place} (hplace : place.storage ∈ held) :
    Supplies K known held labels (read c place type) := by
  cases place with
  | register => exact .again hplace
  | memory => exact loadOrAddress_ends hplace

lemma write_ends {place : Place} (hplace : place.storage ∈ held) (type : TypeId) {value : Register}
    (hvalue : .register value ∈ held) : Supplies K known held labels (write c place type value) := by
  cases place with
  | register => exact (moveInto_ends hplace hvalue).bind fun _ => .again hplace
  | memory address =>
    unfold write
    dsimp only
    split
    · exact (copyBlock_ends hplace hvalue).bind fun _ => .again hplace
    · refine .bind (emit_ends ⟨trivial, fun _ => rfl⟩ ?_) fun _ => .again hvalue
      have haddress : .register address ∈ held := hplace
      simp [Instruction.registers, haddress, hvalue]

/-! ### Symbols -/

lemma storageOf_ends (h : x ∈ known ∨ ∀ name, E (.unresolved name)) :
    Ends E (Holding K known held labels) (storageOf c x) fun s =>
      Holding K known (s :: held) labels := by
  refine .get fun d hd => ?_
  split
  · next s hs => exact .pure_here (hd.hold (hd.stored hs))
  · next hnone =>
    refine .throw (h.elim (fun hx => ?_) (· _))
    have hstores := hd.stores x hx
    rw [Draft.Stores, hnone] at hstores
    cases hstores

lemma declare_ends (x : SymbolId) (type : TypeId) (held : List Storage) (labels : List String) :
    Ends E (Holding K known held labels) (declare c x type) fun s =>
      Holding K (x :: known) (s :: held) labels := by
  have hset (s : Storage) : Ends E (Holding K known (s :: held) labels)
      (do setStorage x s; return s) fun s => Holding K (x :: known) (s :: held) labels :=
    Ends.bind (.update fun d hd => hd.store x (hd.held s (.head _))) fun _ => .pure fun _ => id
  refine .get fun d hd => ?_
  dsimp only
  split
  · next s hs => exact .pure_here ((hd.hold (hd.stored hs)).know (isSome_of_eq_some hs))
  · refine .here hd ?_
    split
    · exact allocateBlock_ends.bind fun _ => hset _
    · refine .get fun d hd => .here hd ?_
      refine register_ends.bind fun r =>
        Ends.bind (Q := fun _ => Holding K known (.register r :: held) labels) ?_ fun _ => hset _
      exact quiet_ends rfl (fun _ _ => .plain rfl rfl rfl (.inl rfl) rfl rfl rfl rfl le_rfl rfl)
        (fun _ => rfl) fun _ hd => { hd.sound with }

/-! ## Leaves -/

lemma literal_values {value : Literal} {type : TypeId} : Values K known (literal c value type) := by
  intro held labels
  cases value with
  | text text =>
    refine .bind (Q := fun name => Holding K known (.static name :: held) labels)
      (.update fun d hd => ?_) fun _ => (staticAddress_ends (.head _)).drop fun _ => .tail _
    obtain ⟨hsub, hsound, hname⟩ := text_sound hd.sound.statics text
    have hbelow : d.Below { d with statics := (d.statics.text text).2 } := ⟨le_rfl, le_rfl, hsub⟩
    have hsyms : (d.statics.text text).2.symbols = d.statics.symbols :=
      symbols_addTexts [text] d.statics
    have hquiet : d.Quiet c K.spared K.strict { d with statics := (d.statics.text text).2 } := by
      refine ⟨rfl, rfl, rfl, fun x hx => ?_, le_rfl, ⟨rfl, ⟨[], rfl⟩, ⟨[text], rfl⟩⟩, hbelow,
        fun _ _ => .inl, rfl, fun _ => id⟩
      rwa [Draft.Stores, hsyms]
    refine (hd.quiet hquiet ?_ hd.apart).hold ⟨hname, trivial⟩
    exact hd.sound.grow hbelow rfl rfl rfl (fun entry h => hbelow.hasStorage (hd.sound.storage entry h))
      hd.sound.result hd.sound.parameters hsound
  | integer =>
    refine resultOf_ends [] (fun _ => id) (forall_mem_nil _) fun _ =>
      ⟨⟨trivial, fun _ => ?_⟩, rfl⟩
    rw [literalImmediate]
    split <;> rfl
  | float | bool | null =>
    exact resultOf_ends [] (fun _ => id) (forall_mem_nil _)
      fun _ => ⟨⟨trivial, fun _ => rfl⟩, rfl⟩

lemma name_values
    (h : (c.scopes.symbol x).kind = .function ∨ x ∈ known ∨ ∀ name, E (.unresolved name))
    (type : TypeId) (access : Access) : Values K known (name c x type access) := by
  intro held labels
  unfold name
  dsimp only
  split
  · exact resultOf_ends [] (fun _ => id) (forall_mem_nil _)
      fun _ => ⟨⟨trivial, fun _ => rfl⟩, rfl⟩
  · next hkind =>
    refine (storageOf_ends (h.resolve_left hkind)).bind fun s => ?_
    cases s with
    | register r =>
      cases access with
      | value => exact .pure fun _ => id
      | pointer =>
        refine Ends.drop ?_ fun _ => List.Mem.tail (Storage.register r)
        exact resultOf_fits (fun _ => ⟨nofun, rfl⟩) (fun _ => rfl) (fun _ => rfl) fun r' d hd =>
          ⟨by simpa [Instruction.registers] using (hd.register (.head _)).1,
            fun _ => ⟨r.index, (hd.register (.tail _ (.head _))).1, rfl⟩, nofun, nofun⟩
    | block => exact (blockAddress_ends (.head _)).drop fun _ => .tail _
    | indirect address =>
      -- The register of the address exists as any other.
      refine .imp (P := Holding K known (.register address :: held) labels) ?_
        (fun _ hd => { hd with held := forall_mem_cons.2 (forall_mem_cons.1 hd.held) })
        fun _ _ => id
      exact (loadOrAddress_ends (.head _)).drop fun _ => .tail _
    | static =>
      exact (staticAddress_ends (.head _)).bind fun _ =>
        (loadOrAddress_ends (.head _)).drop fun _ h => .tail _ (.tail _ h)

lemma place_places (h : Values K known address) : Places K known (place target address) := by
  intro held labels
  unfold place
  extract_lets rest
  have haddress : Ends E (Holding K known held labels) (rest none) fun p =>
      Holding K known (p.storage :: held) labels :=
    (h held labels).bind fun _ => .pure fun _ => id
  split
  · refine .get fun d hd => ?_
    show Ends E _ (rest (d.storage.lookup _)) _
    unfold rest
    split
    · next r hr =>
      exact .pure_here (hd.hold ⟨hd.sound.storage _ (mem_of_lookup hr), hd.apart _ (mem_of_lookup hr)⟩)
    · exact .here hd haddress
  · exact haddress

/-! ## Nodes -/

section

variable (h : e.All (c.Clears E strict known))
include h

lemma typeOf_ends : Ends E P (typeOf e) fun _ => P := by
  unfold typeOf
  split
  · exact .pure fun _ => id
  · next hnone => exact .throw (h.self.1 _ (.inl ⟨hnone, rfl⟩))

lemma typeOf_bind_ends (hf : ∀ type, e.type? = some type → Ends E P (f type) Q) :
    Ends E P (typeOf e >>= f) Q := by
  unfold typeOf
  split
  · next type htype => exact hf type htype
  · next hnone => exact .throw_bind (h.self.1 _ (.inl ⟨hnone, rfl⟩))

lemma typed_ends {f : TypeId → Gen α} (hf : ∀ type, e.type? = some type → Ends E P (f type) Q) :
    Ends E P (match e.note.type with | none => throw .untyped | some type => f type) Q := by
  split
  · next hnone => exact .throw (h.self.1 _ (.inl ⟨hnone, rfl⟩))
  · next type htype => exact hf type htype

lemma typed_options {f : TypeId → Gen (Option Register)}
    (hf : ∀ type, e.type? = some type → Options K known isCertain (f type)) :
    Options K known isCertain (match e.note.type with
      | none => throw .untyped
      | some type => f type) :=
  fun held labels => typed_ends h fun type htype => hf type htype held labels

end

lemma need_ends (h : Ends E P m (Gives K known held labels isCertain))
    (hvalue : isCertain = false → E .voidValue) :
    Ends E P (need m) fun r => Holding K known (.register r :: held) labels := by
  refine .bind h fun o => ?_
  cases o with
  | some => exact .pure fun _ hd => hd.2
  | none =>
    cases isCertain with
    | true => exact fun d hd => absurd (hd.1 rfl) Bool.false_ne_true
    | false => exact .throw (hvalue rfl)

lemma part_values (hnode : c.Clears E strict known e) (hpart : part ∈ e.needs c)
    (h : Options K known (part.hasValue c) m) : Values K known (need m) :=
  fun held labels => need_ends (h held labels) fun hvalue =>
    hnode.1 _ (.inr (.inl ⟨⟨part, hpart, hvalue⟩, rfl⟩))

/-! ### Pointers and indices -/

lemma index_values (he : e.All (c.Clears E strict known)) (h : Values K known value) :
    Values K known (index c e value) := by
  refine fun held labels => (typeOf_ends he).bind fun _ => (h held labels).bind fun r => ?_
  split
  · exact .pure fun _ => id
  · exact resultOf_ends [r] (fun _ => .tail _) (by simp) fun _ => ⟨⟨trivial, fun _ => rfl⟩, rfl⟩

lemma scale_ends {index : Register} (hindex : .register index ∈ held) :
    Supplies K known held labels (scale index size) := by
  unfold scale
  split
  · exact .again hindex
  · exact resultOf_ends [index] (fun _ => id) (by simpa using hindex)
      fun _ => ⟨⟨trivial, fun _ => rfl⟩, rfl⟩

lemma pointerOffset_values {index : Gen Register}
    (hp : Values K known pointer) (hi : Values K known index) :
    Values K known (pointerOffset c op type pointer index) := by
  refine fun held labels => (hp held labels).bind fun base => (hi _ labels).bind fun i =>
    (scale_ends (.head _)).bind fun scaled => ?_
  exact resultOf_ends [base, scaled] (fun _ h => .tail _ (.tail _ (.tail _ h))) (by simp)
    fun _ => ⟨⟨trivial, fun _ => rfl⟩, rfl⟩

lemma pointerDifference_values (hl : Values K known lhs) (hr : Values K known rhs) :
    Values K known (pointerDifference c type lhs rhs) := by
  refine fun held labels => (hl held labels).bind fun left => (hr _ labels).bind fun right => ?_
  refine .bind (Q := fun r => Holding K known (.register r :: held) labels) ?_ fun difference => ?_
  · exact resultOf_ends [left, right] (fun _ h => .tail _ (.tail _ h)) (by simp)
      fun _ => ⟨⟨trivial, fun _ => rfl⟩, rfl⟩
  · exact .ite (.pure fun _ => id) (resultOf_ends [difference] (fun _ => .tail _) (by simp)
      fun _ => ⟨⟨trivial, fun _ => rfl⟩, rfl⟩)

lemma element_values (he : e.All (c.Clears E strict known))
    (hb : Values K known base) (hv : Values K known value) :
    Values K known (element c e type base value) := by
  refine fun held labels => (hb held labels).bind fun base => ?_
  split
  · exact (offsetAddress_ends (.head _) _).drop fun _ => .tail _
  · refine (index_values he hv _ labels).bind fun i => (scale_ends (.head _)).bind fun scaled => ?_
    exact resultOf_ends [base, scaled] (fun _ h => .tail _ (.tail _ (.tail _ h))) (by simp)
      fun _ => ⟨⟨trivial, fun _ => rfl⟩, rfl⟩

/-! ### Operators -/

lemma opcodeOf_ordinary : Ordinary (opcodeOf op) := by
  cases op <;> trivial

lemma operation_values (rhs : Expr) (lhsType rhsType : TypeId)
    (hsuits : K.strict → op.Suits (c.operand type)) (hl : Values K known lhsCode)
    (hr : Values K known rhsCode) :
    Values K known (operation c op rhs lhsType rhsType type lhsCode rhsCode) := by
  have htakes {i : Instruction} (hop : i.opcode = opcodeOf op)
      (htype : ∀ o, op = .arith o → i.type = c.operand type) (hparts : i.hasOperands = true) :
      Takes K i := by
    refine ⟨hop ▸ opcodeOf_ordinary, fun hstrict => ?_⟩
    cases op with
    | arith o =>
      simp_all [Instruction.isFormed, opcodeOf, BinaryOp.Suits]
    | compare | and | or => simp_all [Instruction.isFormed, opcodeOf]
  refine fun held labels => (hl held labels).bind fun left => register_ends.bind fun r => ?_
  dsimp only
  split
  · refine (emit_ends (htakes rfl (by rintro _ rfl; rfl) rfl)
      (by simp [Instruction.registers])).bind fun _ => .pure fun _ hd => hd.sub ?_
    simp +contextual
  · refine (hr _ labels).bind fun right =>
      (emit_ends (htakes rfl (by rintro _ rfl; rfl) rfl) (by simp [Instruction.registers])).bind fun _ =>
      .pure fun _ hd => hd.sub ?_
    simp +contextual

lemma shortCircuit_values (hl : Values K known lhs) (hr : Values K known rhs) :
    Values K known (shortCircuit isAnd lhs rhs) := by
  have hop : (if isAnd = true then Opcode.branchIfZero else .branchIfNotZero).isBranch = true := by
    cases isAnd <;> rfl
  refine fun held labels => register_ends.bind fun r =>
    (newLabel_ends _ labels).bind fun done => (hl _ _).bind fun left =>
    (moveInto_ends (by simp) (.head _)).bind fun _ =>
    (branch_keeps hop (by simp) _ (.head _)).bind fun _ => (hr _ _).bind fun right =>
    (moveInto_ends (by simp) (.head _)).bind fun _ => (defineLabel_ends done _).bind fun _ =>
    .pure fun _ hd => hd.sub ?_
  simp +contextual

lemma binary_values (hsuits : K.strict → op.Suits (c.operand type))
    (hlhs : lhs.All (c.Clears E strict known)) (hrhs : rhs.All (c.Clears E strict known))
    (hl : Values K known lhsCode) (hr : Values K known rhsCode) :
    Values K known (binary c op lhs rhs type lhsCode rhsCode) := by
  intro held labels
  have hoperation (lhsType rhsType : TypeId) :=
    operation_values rhs lhsType rhsType hsuits hl hr held labels
  cases op with
  | and => exact shortCircuit_values hl hr held labels
  | or => exact shortCircuit_values hl hr held labels
  | compare =>
    exact (typeOf_ends hlhs).bind fun _ => (typeOf_ends hrhs).bind fun _ => hoperation _ _
  | arith =>
    refine (typeOf_ends hlhs).bind fun lhsType => (typeOf_ends hrhs).bind fun rhsType => ?_
    split
    · split
      · exact pointerOffset_values hl (index_values hrhs hr) held labels
      · exact hoperation _ _
    · split
      · exact pointerOffset_values hr (index_values hlhs hl) held labels
      · exact hoperation _ _
    · split
      · exact pointerDifference_values hl hr held labels
      · exact hoperation _ _
    · exact hoperation _ _

lemma arm_keeps {dest : Option Register} (hdest : ∀ r ∈ dest, .register r ∈ held)
    (h : Options K known isCertain code) :
    Keeps K known held labels (arm operand dest code) := by
  refine Ends.bind ((h held labels).imp (fun _ => id) fun _ _ => And.right) fun o => ?_
  split
  · refine (moveInto_ends (.tail _ (hdest _ rfl)) (.head _)).imp (fun _ => id) ?_
    exact fun _ _ hd => hd.sub fun _ => .tail _
  · exact .pure fun _ hd => hd.sub fun _ => mem_append_right _

lemma conditional_options {cond : Expr} (hcond : cond.All (c.Clears E strict known))
    (hc : Values K known conditionCode) (hy : Options K known isCertain yes)
    (hn : Options K known isCertain' no) :
    Options K known (!(c.operand type).isVoid) (conditional c cond type conditionCode yes no) := by
  intro held labels
  unfold conditional
  extract_lets operand rest
  have hrest (dest : Option Register) : Ends E
      (Gives K known held labels (!operand.isVoid) dest) (rest dest)
        (Gives K known held labels (!operand.isVoid)) := by
    have hdest (test r : Register) (hr : r ∈ dest) : Storage.register r ∈
        .register test :: (dest.toList.map .register ++ held) := by
      simp [mem_def.1 hr]
    intro d hd
    refine Ends.bind (newLabel_ends _ labels) (fun otherwise => (newLabel_ends _ _).bind fun done =>
      (typeOf_ends hcond).bind fun _ => (hc _ _).bind fun test =>
      (branch_keeps rfl (by simp) _ (.tail _ (.head _))).bind fun _ =>
      (arm_keeps (hdest test) hy).bind fun _ => (jump_keeps (.head _)).bind fun _ => ?_) d hd.2
    -- The label of the second arm was made first.
    refine Ends.bind ((defineLabel_ends otherwise (done :: labels)).imp
      (fun _ hd => { hd with own := K.perm hd.own (.swap _ _ _) }) fun _ _ => id) fun _ => ?_
    exact (arm_keeps (hdest test) hn).bind fun _ => (defineLabel_ends done _).bind
      fun _ => .pure fun _ hend => ⟨hd.1, hend.sub fun _ => .tail _⟩
  split
  · next hvoid => exact .bind (.pure fun _ hd => ⟨by simp [hvoid], hd⟩) hrest
  · exact register_ends.some.bind hrest

lemma unaryOperation_values (hop : Ordinary opcode)
    (hformed : ∀ r s, K.strict → Instruction.isFormed
      { opcode, type, destination := some r, sources := [s] } = true) (h : Values K known code) :
    Values K known (unaryOperation opcode type code) :=
  fun held labels => (h held labels).bind fun r =>
    resultOf_ends [r] (fun _ => .tail _) (by simp) fun s => ⟨⟨hop, hformed s r⟩, rfl⟩

lemma step_values
    (h : Places K known target) : Values K known (step c isPost isDecrement type target) := by
  intro held labels
  unfold step
  extract_lets operand opcode
  have htakes {i : Instruction} (hop : i.opcode = opcode) (hparts : i.hasOperands = true) :
      Takes K i := by
    refine ⟨hop ▸ trivial, fun _ => ?_⟩
    cases isDecrement <;> simp [Instruction.isFormed, hop, hparts, opcode, ArithOp.group]
  refine (h held labels).bind fun place => (read_ends (.head _)).bind fun current => ?_
  extract_lets rest
  have hrest (previous : Option Register) : Ends E (Holding K known (previous.toList.map .register ++
      .register current :: place.storage :: held) labels) (rest previous) fun r =>
        Holding K known (.register r :: held) labels := by
    refine register_ends.bind fun updated => ?_
    extract_lets store
    have hstore : Ends E (Holding K known (.register updated :: (previous.toList.map .register ++
        .register current :: place.storage :: held)) labels) (store ()) fun r =>
          Holding K known (.register r :: held) labels := by
      refine (write_ends (by simp) _ (.head _)).bind fun stored => .pure fun _ hd => hd.sub ?_
      cases previous <;> simp +contextual
    split
    · refine .bind (resultOf_ends [] (fun _ => id) (forall_mem_nil _)
        fun _ => ⟨⟨trivial, fun _ => rfl⟩, rfl⟩) fun one => ?_
      exact .bind (emit_ends (htakes rfl rfl) (by simp [Instruction.registers])) fun _ =>
        hstore.use fun _ => .tail _
    · exact .bind (emit_ends (htakes rfl rfl) (by simp [Instruction.registers])) fun _ => hstore
  have hprevious : Ends E (Holding K known (.register current :: place.storage :: held) labels)
      (resultOf fun destination =>
        { opcode := .move, type := operand, destination := some destination
          sources := [current] }) fun r =>
          Holding K known (.register r :: .register current :: place.storage :: held) labels :=
    resultOf_ends [current] (fun _ => id) (by simp) fun _ => ⟨⟨trivial, fun _ => rfl⟩, rfl⟩
  exact .ite (.bind (.map hprevious) hrest) (hrest none)

/-! ### Casts, declarations and calls -/

lemma cast_options (h : Options K known isCertain code)
    (hvalue : c.types.isVoid target = false → isCertain = false → E .voidValue) :
    Options K known (!c.types.isVoid target) (cast c source target code) := by
  intro held labels
  refine (h held labels).bind fun o => ?_
  split
  · next htgt =>
    exact .pure fun _ hd => ⟨by simp [htgt], hd.2.sub fun _ => mem_append_right _⟩
  · next htgt =>
    have hneed : Ends E (Gives K known held labels isCertain o) (need (pure o)) fun r =>
        Holding K known (.register r :: held) labels :=
      need_ends (.pure fun _ => id) (hvalue (Bool.eq_false_iff.2 htgt))
    refine hneed.bind fun value => ?_
    refine .ite ?_ (.ite (.pure fun _ hd => ⟨fun _ => rfl, hd⟩) ?_)
    · exact .some (resultOf_ends [value] (fun _ => .tail _) (by simp)
        fun _ => ⟨⟨trivial, fun _ => rfl⟩, rfl⟩)
    · exact .some (resultOf_ends [value] (fun _ => .tail _) (by simp)
        fun _ => ⟨⟨trivial, fun _ => rfl⟩, rfl⟩)

lemma declaredPlace_ends (hx : (c.scopes.symbol x).type = none → E .untyped) (held : List Storage)
    (labels : List String) :
    Ends E (Holding K known held labels) (declaredPlace c x) fun p =>
      Holding K (x :: known) (p.1.storage :: held) labels := by
  unfold declaredPlace
  split
  · next hnone => exact .throw (hx hnone)
  · refine (declare_ends _ _ held labels).bind fun s => ?_
    cases s with
    | register => exact .pure fun _ => id
    | block =>
      exact ((blockAddress_ends (.head _)).drop fun _ => .tail _).bind fun _ => .pure fun _ => id
    | indirect =>
      exact .pure fun d hd =>
        { hd with held := forall_mem_cons.2 (forall_mem_cons.1 hd.held) }
    | static =>
      exact ((staticAddress_ends (.head _)).drop fun _ => .tail _).bind fun _ => .pure fun _ => id

lemma calledFunction_ends (hx : (c.scopes.symbol x).type = none → E .untyped)
    (hres : c.result? x = none → E (.unresolved callee)) :
    Ends E P (calledFunction c callee x) fun called d => c.result? x = some called.2.1 ∧ P d := by
  unfold calledFunction
  unfold Env.result? at hres ⊢
  dsimp only
  cases htype : (c.scopes.symbol x).type with
  | none => exact .throw (hx htype)
  | some type =>
    rw [htype] at hres
    dsimp only at hres ⊢
    cases hshape : c.types.shape type with
    | function => exact .pure fun _ hd => ⟨rfl, hd⟩
    | _ => exact .throw (hres (by rw [hshape]))

lemma intrinsicCall_options
    (h : callee ≠ ControlFlow.abortName ∧ callee ≠ debugTrapName → E (.unresolved callee)) :
    Options K known false (intrinsicCall callee) := by
  intro held labels
  unfold intrinsicCall
  split
  · exact .bind (emit_ends ⟨trivial, fun _ => rfl⟩ (forall_mem_nil _)) fun _ =>
      .pure fun _ hd => ⟨nofun, hd⟩
  · next habort =>
    split
    · exact .bind (emit_ends ⟨trivial, fun _ => rfl⟩ (forall_mem_nil _)) fun _ =>
        .pure fun _ hd => ⟨nofun, hd⟩
    · next htrap => exact .throw_bind (h ⟨habort, htrap⟩)

def argumentPlaces (arguments : List (Register × OperandType)) : List Storage :=
  arguments.map fun a => .register a.1

lemma callWith_ends {name : String} {args : List (Register × OperandType)}
    {held : List Storage} {labels : List String} :
    Ends E (Holding K known (argumentPlaces args ++ held) labels) (callWith c name result args)
        (Gives K known held labels (!(c.operand result).isVoid)) := by
  unfold callWith
  extract_lets operand rest
  have hrest (args : List (Register × OperandType)) : Ends E
      (Holding K known (argumentPlaces args ++ held) labels) (rest args)
        (Gives K known held labels (!operand.isVoid)) := by
    unfold rest
    extract_lets call
    have hcall (dest : Option Register) : Ends E
        (Gives K known (argumentPlaces args ++ held) labels (!operand.isVoid) dest)
        (call dest) (Gives K known held labels (!operand.isVoid)) := by
      refine .given fun hcertain => .bind (emit_ends ?_ fun r hr => ?_) fun _ =>
        .pure fun _ hend => ⟨hcertain, hend.sub ?_⟩
      · exact ⟨trivial, fun _ => rfl⟩
      · obtain hr | hr := mem_append.1 hr
        · exact mem_append_left _ (mem_map_of_mem hr)
        · refine mem_append_right _ (mem_append_left _ ?_)
          obtain ⟨a, ha, rfl⟩ := mem_map.1 hr
          exact mem_map_of_mem ha
      · exact fun s hs => (mem_append.1 hs).elim (mem_append_left _) fun h =>
          mem_append_right _ (mem_append_right _ h)
    split
    · next hvoid => exact .bind (.pure fun _ hd => ⟨by simp [hvoid], hd⟩) hcall
    · exact register_ends.some.bind hcall
  refine .ite ?_ (hrest args)
  refine .bind allocateBlock_ends fun index =>
    Ends.bind (blockAddress_ends (.head _)) fun address => ?_
  refine (hrest (args ++ [(address, .address)])).use fun s hs => ?_
  simp only [argumentPlaces, map_append, mem_append, map_cons, map_nil,
    mem_cons] at hs ⊢
  grind

lemma copyToBlock_ends (hsrc : .register source ∈ held) :
    Supplies K known held labels (copyToBlock c source type) :=
  Ends.bind allocateBlock_ends fun index =>
    Ends.bind (blockAddress_ends (.head _)) fun address =>
    (copyBlock_ends (.head _) (.tail _ (.tail _ hsrc))).bind fun _ =>
    .pure fun _ hd => hd.sub (by simp +contextual)

lemma argument_ends (isReference : Bool) (type : TypeId) (hv : Values K known value)
    (ha : Values K known address) (held : List Storage) (labels : List String) :
    Ends E (Holding K known held labels) (argument c isReference type value address) fun a =>
      Holding K known (.register a.1 :: held) labels := by
  refine .ite ((ha held labels).bind fun _ => .pure fun _ => id) (.ite ?_
    ((hv held labels).bind fun _ => .pure fun _ => id))
  exact (hv held labels).bind fun r => (copyToBlock_ends (.head _)).bind fun _ =>
    .pure fun _ hd => hd.sub (by simp +contextual)

/-! ## Expressions -/

lemma args_ends (ih : ∀ e ∈ es, ∀ access, Values K known (need (expr c e access)))
    (hes : ∀ e ∈ es, e.All (c.Clears E strict known)) (references : List Bool) (held : List Storage)
    (labels : List String) :
    Ends E (Holding K known held labels) (args c es references) fun arguments =>
      Holding K known (argumentPlaces arguments ++ held) labels := by
  induction es generalizing references held with
  | nil => exact .pure fun _ => id
  | cons _ _ ihrest =>
    rw [forall_mem_cons] at ih hes
    refine (typeOf_ends hes.1).bind fun _ =>
      (argument_ends _ _ (ih.1 _) (ih.1 _) held labels).bind fun first =>
      (ihrest ih.2 hes.2 _ _).bind fun others => .pure fun _ hd => hd.sub fun s hs => ?_
    simp only [argumentPlaces, map_cons, cons_append, mem_cons, mem_append] at hs ⊢
    grind

lemma elements_keeps {es : List Expr} (ih : ∀ e ∈ es, Values K known (need (expr c e .value)))
    {base : Register} (hbase : .register base ∈ held) (type : TypeId) (position : Nat) :
    Keeps K known held labels (elements c base type position es) := by
  induction es generalizing position with
  | nil => exact .pure fun _ => id
  | cons _ _ ihrest =>
    rw [forall_mem_cons] at ih
    refine (offsetAddress_ends hbase _).bind fun address => (ih.1 _ labels).bind fun value =>
      Ends.bind (write_ends (by simp [Place.storage]) _ (.head _)) fun _ => (ihrest ih.2 _).use ?_
    simp +contextual

/-- What the code of an expression leaves, if its nodes have no other flaws than admitted ones. -/
def OptionsExpr (K : Keeping c E) (known : List SymbolId) (e : Expr) : Prop :=
  e.All (c.Clears E K.strict known) → ∀ access, Options K known (e.hasValue c) (expr c e access)

namespace OptionsExpr

variable {note : Note}

/-- A part that a node needs the value of. -/
lemma part {part : Expr} (ih : OptionsExpr K known part) (h : part.All (c.Clears E K.strict known))
    (hnode : c.Clears E strict known e) (hpart : part ∈ e.needs c) (access : Access) :
    Values K known (need (expr c part access)) :=
  part_values hnode hpart (ih h access)

lemma unary (ih : OptionsExpr K known operand) : OptionsExpr K known (.unary note op operand) := by
  intro h access
  obtain ⟨hnode, ho⟩ := all_unary.1 h
  have hpart := ih.part ho hnode (by simp [needs])
  refine typed_options h fun type htype => ?_
  cases op with
  | address => exact (hpart _).some
  | deref =>
    exact fun held labels => (hpart _ held labels).bind fun _ =>
      ((loadOrAddress_ends (.head _)).drop fun _ => .tail _).some
  | step => exact (step_values (place_places (hpart _))).some
  | negate => exact (unaryOperation_values (by trivial) (fun _ _ _ => rfl) (hpart _)).some
  | complement =>
    refine (unaryOperation_values (by trivial) (fun _ _ hstrict => ?_) (hpart _)).some
    simpa [Instruction.isFormed, Env.operand] using hnode.2.2 hstrict type htype
  | not =>
    exact fun held labels => (typeOf_ends ho).bind fun _ =>
      (unaryOperation_values (by trivial) (fun _ _ _ => rfl) (hpart _)).some held labels

lemma member (ih : OptionsExpr K known object) :
    OptionsExpr K known (.member note object text throughPointer) := by
  intro h access
  obtain ⟨hnode, ho⟩ := all_member.1 h
  have hpart := ih.part ho hnode (by simp [needs])
  refine typed_options h fun type _ held labels => typeOf_bind_ends ho fun objectType hobject => ?_
  extract_lets rest
  have hrest (base : Register) (owner : TypeId)
      (howner : object.owner? c.types throughPointer = some owner) :
      Ends E (Holding K known (.register base :: held) labels) (rest (base, owner))
        (Gives K known held labels true) := by
    unfold rest
    dsimp only
    split
    · next hmember =>
      refine .throw (hnode.1 _ (.inr (.inr ⟨?_, rfl⟩)))
      rw [howner]
      exact hmember
    · exact (offsetAddress_ends (.head _) _).bind fun _ =>
        ((loadOrAddress_ends (.head _)).drop fun _ h => .tail _ (.tail _ h)).some
  split
  · next hthrough =>
    have howner : object.owner? c.types throughPointer = c.types.pointee? objectType := by
      rw [owner?, if_pos hthrough, hobject]
      rfl
    split
    · next hpointee =>
      refine .throw_bind (hnode.1 _ (.inr (.inr ⟨?_, rfl⟩)))
      rw [howner, hpointee]
      rfl
    · next pointee hpointee =>
      exact (hpart _ held labels).bind fun base => hrest base pointee (howner.trans hpointee)
  · next hdirect =>
    have howner : object.owner? c.types throughPointer = some objectType := by
      rw [owner?, if_neg hdirect, hobject]
    exact (hpart _ held labels).bind fun base => hrest base objectType howner

lemma call (ih : ∀ e ∈ arguments, OptionsExpr K known e) :
    OptionsExpr K known (.call note callee symbol arguments) := by
  intro h access
  obtain ⟨hnode, ha⟩ := all_call.1 h
  refine typed_options h fun _ _ => ?_
  cases symbol with
  | none => exact intrinsicCall_options fun hnot => hnode.1 _ (.inr (.inr ⟨hnot, rfl⟩))
  | some =>
    refine fun held labels => .bind (calledFunction_ends
      (fun hnone => hnode.1 _ (.inr (.inr (.inl ⟨hnone, rfl⟩))))
      fun hnone => hnode.1 _ (.inr (.inr (.inr ⟨hnone, rfl⟩)))) fun called d hd => ?_
    rw [hasValue, hd.1]
    exact Ends.bind (args_ends (fun e he => (ih e he).part (ha e he) hnode he) ha _ held labels)
      (fun _ => callWith_ends) d hd.2

lemma collection (ih : ∀ e ∈ es, OptionsExpr K known e) :
    OptionsExpr K known (.collection note es) := by
  intro h access
  obtain ⟨hnode, he⟩ := all_collection.1 h
  refine typed_options h fun type htype held labels => ?_
  split
  · next helement =>
    refine .throw (hnode.1 _ (.inr (.inr ⟨?_, rfl⟩)))
    rw [show note.type = some type from htype]
    exact helement
  · refine .bind allocateBlock_ends fun _ =>
      Ends.bind (blockAddress_ends (.head _)) fun base =>
      (elements_keeps (fun e hmem => (ih e hmem).part (he e hmem) hnode hmem _) (.head _) _
        _).bind fun _ => .pure fun _ hd => ⟨fun _ => rfl, hd.sub ?_⟩
    simp +contextual

lemma declare (ih : ∀ e ∈ initializer, OptionsExpr K known e) :
    OptionsExpr K known (.declare note x initializer) := by
  intro h access
  obtain ⟨hnode, hi⟩ := all_declare.1 h
  have hplace (held : List Storage) (labels : List String) :
      Ends E (Holding K known held labels) (declaredPlace c x) fun p =>
        Holding K known (p.1.storage :: held) labels :=
    (declaredPlace_ends (fun hnone => hnode.1 _ (.inr (.inr ⟨hnone, rfl⟩))) held labels).imp
      (fun _ => id) fun _ _ hd => { hd with stores := fun x hx => hd.stores x (.tail _ hx) }
  cases initializer with
  | none =>
    exact typed_options h fun _ _ held labels => (hplace held labels).bind fun _ =>
      .pure fun _ hd => ⟨by rintro ⟨⟩, hd.sub fun _ => .tail _⟩
  | some value =>
    have hvalue := (ih value rfl).part (hi value rfl) hnode (by simp [needs]) .value
    exact typed_options h fun _ _ held labels => (hplace held labels).bind fun _ =>
      (hvalue _ labels).bind fun _ =>
      ((write_ends (.tail _ (.head _)) _ (.head _)).drop fun _ h => .tail _ (.tail _ h)).some

end OptionsExpr

lemma expr_options (e : Expr) : OptionsExpr K known e := by
  induction e using Expr.induction with
  | unary _ _ _ ih => exact .unary ih
  | member _ _ _ _ ih => exact .member ih
  | call _ _ _ _ ih => exact .call ih
  | collection _ _ ih => exact .collection ih
  | declare _ _ _ ih => exact .declare ih
  | literal =>
    exact fun h _ held labels => (typeOf_ends h).bind fun _ => literal_values.some held labels
  | name _ _ symbol =>
    refine fun h _ held labels => (typeOf_ends h).bind fun type => ?_
    cases symbol with
    | none => exact .throw (h.self.1 _ (.inr (.inr rfl)))
    | some => exact (name_values (or_assoc.1 h.self.2.1) _ _).some held labels
  | binary _ _ _ _ ihl ihr =>
    intro h _
    obtain ⟨hnode, hl, hr⟩ := all_binary.1 h
    exact typed_options h fun type htype => (binary_values (fun hstrict => hnode.2.2 hstrict type htype)
      hl hr (ihl.part hl hnode (by simp [needs]) _) (ihr.part hr hnode (by simp [needs]) _)).some
  | conditional note _ _ _ ihc ihy ihn =>
    intro h _
    obtain ⟨hnode, hc, hy, hn⟩ := all_conditional.1 h
    refine typed_options h fun type htype => ?_
    rw [hasValue, show note.type = some type from htype]
    exact conditional_options hc (ihc.part hc hnode (by simp [needs]) _) (ihy hy _) (ihn hn _)
  | index _ _ _ ihb ihi =>
    intro h _
    obtain ⟨hnode, hb, hi⟩ := all_index.1 h
    have hbase := ihb.part hb hnode (by simp [needs])
    have hposition := ihi.part hi hnode (by simp [needs])
    exact typed_options h fun type _ held labels => (typeOf_ends hb).bind fun _ =>
      (element_values hi (hbase _) (hposition _) held labels).bind fun _ =>
      ((loadOrAddress_ends (.head _)).drop fun _ => .tail _).some
  | cast _ operand _ _ ih =>
    intro h _
    obtain ⟨hnode, ho⟩ := all_cast.1 h
    refine typed_options h fun _ _ held labels => (typeOf_ends ho).bind fun _ =>
      cast_options (ih ho _) (fun htarget hvalue => ?_) held labels
    exact hnode.1 _ (.inr (.inl ⟨⟨operand, by simp [needs, htarget], hvalue⟩, rfl⟩))
  | assign _ _ _ iht ihv =>
    intro h _
    obtain ⟨hnode, ht, hv⟩ := all_assign.1 h
    have htarget := iht.part ht hnode (by simp [needs]) .pointer
    have hvalue := ihv.part hv hnode (by simp [needs]) .value
    exact typed_options h fun _ _ held labels => (typeOf_ends ht).bind fun _ =>
      (place_places htarget held labels).bind fun _ => (hvalue _ labels).bind fun _ =>
      ((write_ends (.tail _ (.head _)) _ (.head _)).drop fun _ h => .tail _ (.tail _ h)).some
  | qualified | update | sizeOf =>
    exact fun h _ => typed_options h fun _ _ _ _ => .throw (h.self.1 _ (.inr (.inr rfl)))

end Gen

end Code

end CompilerCore
