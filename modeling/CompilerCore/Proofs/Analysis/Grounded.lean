import CompilerCore.Proofs.Analysis.Acceptance
import CompilerCore.Proofs.Analysis.Lockstep

/-!
# Programs whose types exist

A program is *grounded* in a type table if all types in it are types of the table, and no type of the
table contains itself.  Every item of such a program is like itself, in the sense of the comparison of
analyses, for the symbols that it mentions.
-/

namespace CompilerCore

open List

namespace Expr

/-- The type that an expression spells out. -/
def spelled? : Expr → Option TypeId
  | cast _ _ target _ => some target
  | sizeOf _ type => some type
  | _ => none

/-- A node all of whose types are among the first `n`. -/
def Within (n : Nat) (e : Expr) : Prop := (∀ type ∈ e.type?, type < n) ∧ ∀ type ∈ e.spelled?, type < n

instance (n : Nat) (e : Expr) : Decidable (e.Within n) := by
  unfold Within
  infer_instance

/-- A node that looks up a name only if `N` allows it, and declares a symbol only if `D` does. -/
def Obeys (N : String → Token → Prop) (D : SymbolId → Prop) : Expr → Prop
  | name note text _ => N text note.token
  | call note callee _ _ => N callee note.token
  | declare _ x _ => D x
  | _ => True

def declared? : Expr → Option SymbolId
  | declare _ x _ => some x
  | _ => none

/-- The symbol that a node names or declares, seen from a scope. -/
def mentioned? (scopes : ScopeTree) (scope : ScopeId) : Expr → Option SymbolId
  | name note text _ => scopes.lookupSymbol? scope text note.token.source
  | call note callee _ _ => scopes.lookupSymbol? scope callee note.token.source
  | declare _ x _ => some x
  | _ => none

variable {R : TypeId → TypeId → Prop} {N : String → Token → Prop} {D : SymbolId → Prop} {n : Nat}
  {e : Expr}

lemma Within.note (hR : ∀ type < n, R type type) (h : e.Within n) : e.note.Like R e.note := by
  refine ⟨rfl, ?_, rfl⟩
  have htype := h.1
  unfold type? at htype
  generalize e.note.type = o at htype
  cases o with
  | none => exact .none
  | some type => exact .some (hR type (htype type rfl))

lemma Like.refl (hR : ∀ type < n, R type type) (h : e.All fun a => a.Within n ∧ a.Obeys N D) :
    e.Like R N D e := by
  induction e using Expr.induction with (have hn := h.self.1.note hR)
  | literal note value => exact .literal value hn
  | name note text symbol => exact .name text symbol hn h.self.2
  | binary note op _ _ ihl ihr =>
    rw [all_binary] at h
    exact .binary op hn (ihl h.2.1) (ihr h.2.2)
  | unary note op _ ih =>
    rw [all_unary] at h
    exact .unary op hn (ih h.2)
  | conditional note _ _ _ iht ihy ihn =>
    rw [all_conditional] at h
    exact .conditional hn (iht h.2.1) (ihy h.2.2.1) (ihn h.2.2.2)
  | member note _ text deref ih =>
    rw [all_member] at h
    exact .member text deref hn (ih h.2)
  | qualified note scope text => exact .qualified scope text hn
  | call note callee symbol _ ih =>
    rw [all_call] at h
    exact .call callee symbol hn h.1.2 (forall₂_same.2 fun a ha => ih a ha (h.2 a ha))
  | index note _ index ihb ihi =>
    rw [all_index] at h
    exact .index hn (ihb h.2.1) (ihi h.2.2)
  | collection note _ ih =>
    rw [all_collection] at h
    exact .collection hn (forall₂_same.2 fun a ha => ih a ha (h.2 a ha))
  | cast note _ target isImplicit ih =>
    rw [all_cast] at h
    exact .cast isImplicit hn (ih h.2) (hR target (h.1.1.2 target rfl))
  | assign note _ _ iht ihv =>
    rw [all_assign] at h
    exact .assign hn (iht h.2.1) (ihv h.2.2)
  | update note op _ _ iht ihv =>
    rw [all_update] at h
    exact .update op hn (iht h.2.1) (ihv h.2.2)
  | declare note x init ih =>
    rw [all_declare] at h
    cases init with
    | none => exact .declare x hn h.1.2
    | some a => exact .declareWith x hn h.1.2 (ih a rfl (h.2 a rfl))
  | sizeOf note type => exact .sizeOf hn (hR type (h.self.1.2 type rfl))

end Expr

namespace Stmt

mutual

/-- The nodes of the expressions of a statement, each with the scope that it stands in. -/
def placed : ScopeId → Stmt → List (ScopeId × Expr)
  | scope, expr _ e => e.nodes.map (scope, ·)
  | _, block _ inner body => placedOfList inner body
  | scope, seq _ body => placedOfList scope body
  | scope, branch _ condition yes none => condition.nodes.map (scope, ·) ++ placed scope yes
  | scope, branch _ condition yes (some no) =>
    condition.nodes.map (scope, ·) ++ placed scope yes ++ placed scope no
  | scope, whileLoop _ condition body => condition.nodes.map (scope, ·) ++ placed scope body
  | scope, doLoop _ body condition => condition.nodes.map (scope, ·) ++ placed scope body
  | scope, forLoop _ none condition step body =>
    (optionNodes condition ++ optionNodes step).map (scope, ·) ++ placed scope body
  | scope, forLoop _ (some first) condition step body =>
    placed scope first ++ (optionNodes condition ++ optionNodes step).map (scope, ·) ++
      placed scope body
  | scope, ret _ value => (optionNodes value).map (scope, ·)
  | scope, gotoAddress _ target => target.nodes.map (scope, ·)
  | scope, switch _ value body _ => value.nodes.map (scope, ·) ++ placed scope body
  | scope, caseLabel _ value => value.nodes.map (scope, ·)
  | scope, assertion _ condition _ => condition.nodes.map (scope, ·)
  | scope, cleanup _ body => placed scope body
  | _, breakLoop _ | _, continueLoop _ | _, goto .. | _, label .. | _, defaultLabel _ | _, asm ..
  | _, empty _ => []
termination_by structural _ s => s

def placedOfList : ScopeId → List Stmt → List (ScopeId × Expr)
  | _, [] => []
  | scope, s :: rest => placed scope s ++ placedOfList scope rest
termination_by structural _ ss => ss

end

variable {R : TypeId → TypeId → Prop} {N : ScopeId → String → Token → Prop} {D : SymbolId → Prop}
  {n : Nat} {scope : ScopeId}

/-- What holds of every node with its scope. -/
abbrev AllPlaced (P : ScopeId → Expr → Prop) (scope : ScopeId) (st : Stmt) : Prop :=
  ∀ q ∈ st.placed scope, P q.1 q.2

lemma forall_map_nodes {P : ScopeId → Expr → Prop} {e : Expr} :
    (∀ q ∈ e.nodes.map (scope, ·), P q.1 q.2) ↔ e.All (P scope) := by
  simp [Expr.All]

lemma forall_map_optionNodes {P : ScopeId → Expr → Prop} :
    (∀ q ∈ (optionNodes o).map (scope, ·), P q.1 q.2) ↔ ∀ e ∈ o, e.All (P scope) := by
  cases o <;> simp [optionNodes, Expr.All]

lemma Like.refl (hR : ∀ type < n, R type type) {st : Stmt}
    (h : st.AllPlaced (fun scope a => a.Within n ∧ a.Obeys (N scope) D) scope) :
    st.Like R N D scope st := by
  have hexpr {scope : ScopeId} {e : Expr}
      (h : ∀ q ∈ e.nodes.map (scope, ·), q.2.Within n ∧ q.2.Obeys (N q.1) D) :
      e.Like R (N scope) D e :=
    .refl hR ((forall_map_nodes (P := fun scope a => a.Within n ∧ a.Obeys (N scope) D)).1 h)
  have hopt {scope : ScopeId} {o : Option Expr}
      (h : ∀ q ∈ (optionNodes o).map (scope, ·), q.2.Within n ∧ q.2.Obeys (N q.1) D) :
      Option.Rel (Expr.Like R (N scope) D) o o := by
    have hall := (forall_map_optionNodes (P := fun scope a => a.Within n ∧ a.Obeys (N scope) D)).1 h
    cases o with
    | none => exact .none
    | some e => exact .some (.refl hR (hall e rfl))
  have hlist {scope : ScopeId} {ss : List Stmt} (ih : ∀ st ∈ ss, ∀ {scope},
        st.AllPlaced (fun scope a => a.Within n ∧ a.Obeys (N scope) D) scope → st.Like R N D scope st)
      (h : ∀ q ∈ placedOfList scope ss, q.2.Within n ∧ q.2.Obeys (N q.1) D) :
      ListLike R N D scope ss ss := by
    induction ss with
    | nil => exact .nil
    | cons st _ ihs =>
      rw [placedOfList, forall_mem_append] at h
      exact .cons (ih st (.head _) h.1) (ihs (fun st hst => ih st (.tail _ hst)) h.2)
  induction st using Stmt.induction generalizing scope with
  | expr tok => exact .expr tok (hexpr h)
  | block tok inner _ ih => exact .block tok inner (hlist (fun st hst _ => ih st hst) h)
  | seq tok _ ih => exact .seq tok (hlist (fun st hst _ => ih st hst) h)
  | branch tok _ _ no ihy ihn =>
    cases no with
    | none =>
      rw [AllPlaced, placed, forall_mem_append] at h
      exact .branch tok (hexpr h.1) (ihy h.2)
    | some no =>
      rw [AllPlaced, placed, forall_mem_append, forall_mem_append] at h
      exact .branchElse tok (hexpr h.1.1) (ihy h.1.2) (ihn no rfl h.2)
  | whileLoop tok _ _ ih =>
    rw [AllPlaced, placed, forall_mem_append] at h
    exact .whileLoop tok (hexpr h.1) (ih h.2)
  | doLoop tok _ _ ih =>
    rw [AllPlaced, placed, forall_mem_append] at h
    exact .doLoop tok (ih h.2) (hexpr h.1)
  | forLoop tok first _ _ _ ihf ih =>
    cases first with
    | none =>
      rw [AllPlaced, placed, map_append, forall_mem_append, forall_mem_append] at h
      exact .forLoop tok (hopt h.1.1) (hopt h.1.2) (ih h.2)
    | some first =>
      rw [AllPlaced, placed, map_append, forall_mem_append, forall_mem_append,
        forall_mem_append] at h
      exact .forLoopWith tok (ihf first rfl h.1.1) (hopt h.1.2.1) (hopt h.1.2.2) (ih h.2)
  | breakLoop tok => exact .breakLoop tok
  | continueLoop tok => exact .continueLoop tok
  | ret tok => exact .ret tok (hopt h)
  | goto tok label => exact .goto tok label
  | gotoAddress tok => exact .gotoAddress tok (hexpr h)
  | label tok name => exact .label tok name
  | switch tok _ _ labels ih =>
    rw [AllPlaced, placed, forall_mem_append] at h
    exact .switch tok labels (hexpr h.1) (ih h.2)
  | caseLabel tok => exact .caseLabel tok (hexpr h)
  | defaultLabel tok => exact .defaultLabel tok
  | assertion tok _ message => exact .assertion tok message (hexpr h)
  | asm tok code => exact .asm tok code
  | cleanup tok _ ih => exact .cleanup tok (ih h)
  | empty tok => exact .empty tok

end Stmt

/-! ## Items and programs -/

namespace Item

/-- The nodes of the expressions of an item, each with the scope that it stands in. -/
def placed (scope : ScopeId) : Item → List (ScopeId × Expr)
  | function f => f.body.placed f.scope
  | global v => v.statement.placed scope

/-- The symbols that an item refers to. -/
def mentions (scopes : ScopeTree) (scope : ScopeId) (i : Item) : List SymbolId :=
  (i.placed scope).filterMap fun q => q.2.mentioned? scopes q.1

/-- The symbols whose types an item's declarations leave to be inferred. -/
def infers (scopes : ScopeTree) (scope : ScopeId) (i : Item) : List SymbolId :=
  (i.placed scope).filterMap fun q => q.2.declared?.filter fun x => (scopes.symbol x).type.isNone

/-- An item all of whose types are among the first `n`. -/
@[mk_iff] structure Within (n : Nat) (scope : ScopeId) (i : Item) : Prop where
  result : i.result < n
  nodes : ∀ q ∈ i.placed scope, q.2.Within n

instance (n : Nat) (scope : ScopeId) (i : Item) : Decidable (i.Within n scope) :=
  decidable_of_iff' _ (within_iff n scope i)

end Item

lemma Item.Like.refl {i : Item} (hR : ∀ type < n, R type type) (hi : i.Within n scope)
    (h : ∀ q ∈ i.placed scope, q.2.Obeys (N q.1) D) : i.Like R N D scope i := by
  have hplaced : ∀ q ∈ i.placed scope, q.2.Within n ∧ q.2.Obeys (N q.1) D :=
    fun q hq => ⟨hi.nodes q hq, h q hq⟩
  cases i with
  | function => exact .function (hR _ hi.result) (.refl hR hplaced)
  | global => exact .global (.refl hR hplaced)

/-- A program all of whose types are types of a table in which no type contains itself. -/
structure Program.Grounded (p : Program) (t : TypeTable) : Prop where
  types : t.Sound
  acyclic : t.Acyclic
  symbols : p.scopes.Typed t
  entries : p.scopes.Declares t.slots.size
  items : ∀ i ∈ p.items, i.Within t.slots.size p.globalScope

namespace TypeTable

lemma Sound.ground {t : TypeTable} (h : t.Sound) (hacyclic : t.Acyclic)
    (hok : t.resolve scopes = (.ok n, base)) : base.Ground ∧ base.slots.size = t.slots.size := by
  have horderly : t.Orderly := by
    refine ⟨(Nat.zero_le _).trans_lt (h.builtin .void).1, fun a b hab => ?_, hacyclic⟩
    exact h.references_lt rfl (Shape.parts_subset _ hab)
  obtain ⟨hsteps, houtcome, -⟩ := resolve_steps hok
  obtain ⟨hsound, hsize, -⟩ := h.resolve hok
  exact ⟨⟨hsound, (horderly.advances hsteps).orderly, houtcome.done⟩, hsize⟩

end TypeTable

namespace Analysis

/-- The setting with the same types and scopes in which other symbols are of interest. -/
def Setting.on (g : Setting) (tracked inferred : SymbolId → Prop) : Setting :=
  { g with tracked, inferred }

/-- The setting in which the symbols of interest are those of an item. -/
def Setting.ofItem (g : Setting) (scope : ScopeId) (i : Item) : Setting :=
  g.on (· ∈ i.mentions g.scopes scope) (· ∈ i.infers g.scopes scope)

namespace Setting

variable {g : Setting} {scope : ScopeId} {i : Item}

lemma mentions_of_infers (hx : x ∈ i.infers g.scopes scope) :
    x ∈ i.mentions g.scopes scope := by
  rw [Item.infers, mem_filterMap] at hx
  rw [Item.mentions, mem_filterMap]
  obtain ⟨q, hq, hx⟩ := hx
  refine ⟨q, hq, ?_⟩
  obtain ⟨scope, e⟩ := q
  cases e with
  | declare =>
    obtain ⟨-, rfl⟩ := by simpa [Expr.declared?, Option.filter] using hx
    rfl
  | _ => cases hx

lemma obeys_ofItem : ∀ q ∈ i.placed scope,
    q.2.Obeys ((g.ofItem scope i).Names q.1) (g.ofItem scope i).Declared := by
  intro q hq
  have hmentions (x : SymbolId) (hx : q.2.mentioned? g.scopes q.1 = some x) :
      x ∈ i.mentions g.scopes scope :=
    mem_filterMap.2 ⟨q, hq, hx⟩
  obtain ⟨inner, e⟩ := q
  cases e with
  | name => exact fun x hx => hmentions x hx
  | call => exact fun x hx => hmentions x hx
  | declare _ x =>
    refine ⟨hmentions x rfl, fun hnone => mem_filterMap.2 ⟨_, hq, ?_⟩⟩
    simp [Expr.declared?, Option.filter, show (g.scopes.symbol x).type = none from hnone]
  | _ => trivial

/-- A setting in which all symbols are of interest. -/
structure Whole (g : Setting) : Prop where
  tracked : ∀ x, g.tracked x
  inferred : ∀ x, g.inferred x

lemma Whole.obeys (hg : g.Whole) (scope : ScopeId) (e : Expr) :
    e.Obeys (g.Names scope) g.Declared := by
  cases e with
  | name | call => exact fun x _ => hg.tracked x
  | declare _ x => exact ⟨hg.tracked x, fun _ => hg.inferred x⟩
  | _ => trivial

end Setting

/-- The program is about to have its first wave: its types are resolved, and all symbols are of
interest. -/
structure Begins (p : Program) (types : TypeTable) (g : Setting) (s : State) : Prop where
  whole : g.Whole
  scopes : g.scopes = p.scopes
  size : g.base.slots.size = types.slots.size
  aligned : g.Aligned s s

namespace Begins

variable {p : Program} {types : TypeTable} {g : Setting} {s : State}

lemma same (h : Begins p types g s) (t t' : State) :
    ∀ type < types.slots.size, g.Same t t' type type :=
  fun _ htype => TypeTable.same_given _ _ (h.size ▸ htype)

lemma like (h : Begins p types g s) {i : Item} (hi : i.Within types.slots.size p.globalScope) :
    g.itemLink p.globalScope (g.Same s s) i i :=
  .refl (h.same s s) hi fun q _ => h.whole.obeys q.1 q.2

lemma like_ofItem (h : Begins p types g s) {i : Item}
    (hi : i.Within types.slots.size p.globalScope) :
    (g.ofItem p.globalScope i).itemLink p.globalScope (g.Same s s) i i :=
  .refl (h.same s s) hi Setting.obeys_ofItem

end Begins

/-- What is left of the waves of a program. -/
def Outcome.of (p : Program) (r : (Except AnalysisError Nat × List Item) × State) : Outcome where
  result := r.1.1
  program := { p with items := r.1.2, scopes := r.2.scopes }
  types := r.2.types
  diagnostics := r.2.diagnostics

end Analysis

namespace Program

open Analysis

/-- The state in which the waves begin. -/
def ready (p : Program) (types : TypeTable) (diagnostics : Diagnostics) : State :=
  { types := (types.resolve p.scopes).2, scopes := p.scopes, diagnostics }

/-- Either the declarations of a program are refused whatever its items are, or the types that they
declare are resolved and waves over its items begin. -/
lemma analyze_cases (p : Program) (types : TypeTable) (config : Config) (diags : Diagnostics) :
    (∃ error, (∀ n, error ≠ .nonConvergence n) ∧
      ∀ items, ({ p with items }.analyze config types diags).result = .error error) ∨
    (∃ order, (types.resolve p.scopes).1 = .ok order) ∧
      ∀ items, { p with items }.analyze config types diags = .of p
        ((waves config p.globalScope config.maxWaves 1 none [] items).run
          (p.ready types diags)) := by
  by_cases hdecl : p.declarationErrors.isEmpty = true
  swap
  · refine .inl ⟨.invalidDeclarations p.declarationErrors.length, nofun, fun items => ?_⟩
    rw [Program.analyze, program, if_pos (by simp [hdecl])]
    rfl
  unfold ready
  generalize hresolve : types.resolve p.scopes = r
  obtain ⟨resolution, base⟩ := r
  cases resolution with
  | error e =>
    refine .inl ⟨.unresolvedTypes e, nofun, fun items => ?_⟩
    rw [Program.analyze, program, if_neg (by simp [hdecl])]
    simp only [StateT.run_bind, StateT.run_get, pure_bind, hresolve]
    rfl
  | ok order =>
    refine .inr ⟨⟨order, rfl⟩, fun items => ?_⟩
    rw [Program.analyze, program, if_neg (by simp [hdecl])]
    simp only [StateT.run_bind, StateT.run_get, pure_bind, hresolve]
    rfl

lemma Grounded.begins {types : TypeTable} (h : p.Grounded types) (diags : Diagnostics)
    (hresolve : (types.resolve p.scopes).1 = .ok order) :
    ∃ g, Begins p types g (p.ready types diags) := by
  obtain ⟨hground, hsize⟩ := h.types.ground h.acyclic (Prod.ext hresolve rfl)
  let g : Setting :=
    { base := (types.resolve p.scopes).2, scopes := p.scopes, declares := hsize ▸ h.entries
      tracked _ := True, inferred _ := True }
  refine ⟨g, ⟨fun _ => trivial, fun _ => trivial⟩, rfl, hsize, hground.over, hground.over,
    .refl _, .refl _, fun x _ => ?_⟩
  show Option.Rel _ (p.scopes.symbol x).type (p.scopes.symbol x).type
  cases htype : (p.scopes.symbol x).type with
  | none => exact .none
  | some type => exact .some (TypeTable.same_given _ _ (hsize ▸ h.symbols x type htype))

end Program

end CompilerCore
