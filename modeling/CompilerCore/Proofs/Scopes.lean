import CompilerCore.Proofs.Except
import CompilerCore.Scope
import Mathlib.Data.List.Basic

/-!
# Histories of scope tables

A scope tree is made by calls that open scopes and declare names in them.  One call keeps the tables well
formed and keeps all that was declared before it, so a whole history does: a name has one meaning in a
scope, the meaning that it was given first, and the walk outwards that a look-up makes comes to an end.

Types are resolved by a walk of their own, which asks the first scope at the outside before any other.
The last section says when the two walks agree.
-/

namespace CompilerCore

open List

/-- What a scope can give a name to. -/
inductive Declaration where
  | symbol (symbol : Symbol)
  | record (name : String) (entry : TypeEntry)
  | enum (name : String) (entry : TypeEntry)

namespace Declaration

def name : Declaration → String
  | symbol s => s.name
  | record name _ | enum name _ => name

def token : Declaration → Token
  | symbol s => s.token
  | record _ entry | enum _ entry => entry.token

/-- Declares in a scope.  The result is the new meaning of the name, and the tree that holds it. -/
def declare (t : ScopeTree) (scope : ScopeId) :
    Declaration → Except DuplicateName (ScopeEntry × ScopeTree)
  | symbol s => (fun r => (.symbol r.1, r.2)) <$> t.declareSymbol scope s
  | record name entry => (fun t' => (.record entry, t')) <$> t.declareType scope name (.record entry)
  | enum name entry => (fun t' => (.enum entry, t')) <$> t.declareType scope name (.enum entry)

def entry (t : ScopeTree) : Declaration → ScopeEntry
  | symbol _ => .symbol t.symbols.size
  | record _ entry => .record entry
  | enum _ entry => .enum entry

/-- The symbols that a declaration adds to the tree's. -/
def added (scope : ScopeId) : Declaration → Array Symbol
  | symbol s => #[{ s with scope }]
  | record .. | enum .. => #[]

/-- The tree after a declaration of a new name. -/
def place (t : ScopeTree) (scope : ScopeId) (d : Declaration) : ScopeTree :=
  { t with symbols := t.symbols ++ d.added scope }.bind scope d.name (d.entry t)

lemma declare_eq {t : ScopeTree} {scope : ScopeId} {d : Declaration} :
    d.declare t scope = match (t.scope scope).names.lookup d.name with
      | some earlier => .error ⟨d.name, t.entryToken earlier⟩
      | none => .ok (d.entry t, d.place t scope) := by
  cases d with
  | symbol s =>
    rw [declare, ScopeTree.declareSymbol, ScopeTree.duplicate?, name]
    cases (t.scope scope).names.lookup s.name <;> simp [place, added, entry, name]
  | record n | enum n =>
    rw [declare, ScopeTree.declareType, ScopeTree.duplicate?, name]
    cases (t.scope scope).names.lookup n <;> simp [place, added, entry, name]

end Declaration

namespace ScopeTree

variable {t t' later : ScopeTree} {scope id : ScopeId} {name : String} {source : Option SourceId}
  {entry : ScopeEntry} {d : Declaration}

/-- A call that changes a scope tree. -/
inductive Call where
  | pushScope (parent : Option ScopeId)
  | declare (scope : ScopeId) (declaration : Declaration)

/-- The tree after a call.  A declaration that is refused leaves it as it is. -/
def Call.result (t : ScopeTree) : Call → ScopeTree
  | pushScope parent => (t.pushScope parent).2
  | declare scope d => match d.declare t scope with
    | .ok (_, t') => t'
    | .error _ => t

/-- The scope that a call names, if it names one, is open. -/
def Call.Meets (t : ScopeTree) : Call → Prop
  | pushScope parent => ∀ id ∈ parent, id < t.scopes.size
  | declare scope _ => scope < t.scopes.size

instance (t : ScopeTree) (call : Call) : Decidable (call.Meets t) := by
  unfold Call.Meets
  split <;> infer_instance

/-- Some calls lead from one tree to another. -/
inductive History (t : ScopeTree) : ScopeTree → Prop
  | start : History t t
  | next {t' : ScopeTree} (call : Call) : History t t' → call.Meets t' → History t (call.result t')

/-- The walk outwards from a scope to the first visible meaning of a name ends with an answer. -/
inductive Answers (t : ScopeTree) (name : String) (source : Option SourceId) :
    ScopeId → Option ScopeEntry → Prop
  | here {id : ScopeId} {entry : ScopeEntry} :
    t.visible? name source id = some entry → Answers t name source id (some entry)
  | outward {id parent : ScopeId} {answer : Option ScopeEntry} :
    t.visible? name source id = none → (t.scope id).parent = some parent →
    Answers t name source parent answer → Answers t name source id answer
  | outside {id : ScopeId} :
    t.visible? name source id = none → (t.scope id).parent = none → Answers t name source id none

/-- The look-up that belongs to a meaning finds it. -/
def Finds (t : ScopeTree) (scope : ScopeId) (name : String) (source : Option SourceId) :
    ScopeEntry → Prop
  | .symbol id => t.lookupSymbol? scope name source = some id
  | .record entry => t.lookupRecord? scope name source = some entry.type
  | .enum entry => t.lookupEnum? scope name source = some entry.type

/-! ## What one call keeps -/

/-- What holds of the tables at all times. -/
structure WellFormed (t : ScopeTree) : Prop where
  nodup : ∀ id, ((t.scope id).names.map (·.1)).Nodup
  older : ∀ id, ∀ parent ∈ (t.scope id).parent, parent < id
  known : ∀ id name x, (name, .symbol x) ∈ (t.scope id).names → x < t.symbols.size

/-- What a tree still holds later. -/
structure Keeps (t later : ScopeTree) : Prop where
  scopes : t.scopes.size ≤ later.scopes.size
  symbols : t.symbols.size ≤ later.symbols.size
  names : ∀ id < t.scopes.size, ∀ name entry, (t.scope id).names.lookup name = some entry →
    (later.scope id).names.lookup name = some entry
  symbol : ∀ x < t.symbols.size, later.symbol x = t.symbol x

lemma scope_pushScope :
    (t.pushScope parent).2.scope id = if id = t.scopes.size then { parent } else t.scope id := by
  simp only [scope, pushScope, Array.getD_eq_getD_getElem?, Array.getElem?_push]
  split
  · rfl
  · rfl

lemma scope_place (hscope : scope < t.scopes.size) : (d.place t scope).scope id = if id = scope then
      { t.scope id with names := (d.name, d.entry t) :: (t.scope id).names } else t.scope id := by
  simp only [ScopeTree.scope, Declaration.place, bind, Array.getD_eq_getD_getElem?, Array.getElem?_modify]
  by_cases hid : id = scope
  · simp [hid, hscope]
  · simp [hid, Ne.symm hid]

lemma size_place (t : ScopeTree) (scope : ScopeId) (d : Declaration) :
    (d.place t scope).scopes.size = t.scopes.size := by
  simp [Declaration.place, bind]

lemma symbols_place : t.symbols.size ≤ (d.place t scope).symbols.size := by
  simp [Declaration.place, bind]

lemma symbol_place (hx : x < t.symbols.size) : (d.place t scope).symbol x = t.symbol x := by
  simp [symbol, Declaration.place, bind, Array.getElem?_append_left hx]

lemma WellFormed.pushScope (ht : t.WellFormed) (hparent : ∀ id ∈ parent, id < t.scopes.size) :
    (t.pushScope parent).2.WellFormed := by
  refine ⟨fun id => ?_, fun id outer houter => ?_, fun id n x hmem => ?_⟩
  · rw [scope_pushScope]
    split
    · exact nodup_nil
    · exact ht.nodup id
  · rw [scope_pushScope] at houter
    split at houter
    · exact ‹id = _› ▸ hparent outer houter
    · exact ht.older id outer houter
  · rw [scope_pushScope] at hmem
    split at hmem
    · simp at hmem
    · exact ht.known id n x hmem

lemma WellFormed.place (ht : t.WellFormed) (hscope : scope < t.scopes.size)
    (hnew : (t.scope scope).names.lookup d.name = none) : (d.place t scope).WellFormed := by
  refine ⟨fun id => ?_, fun id outer houter => ?_, fun id n x hmem => ?_⟩
  · rw [scope_place hscope]
    split
    · subst id
      refine nodup_cons.2 ⟨fun hmem => ?_, ht.nodup scope⟩
      obtain ⟨pair, hpair, hname⟩ := mem_map.1 hmem
      have := lookup_eq_none_iff.1 hnew pair hpair
      simp [hname] at this
    · exact ht.nodup id
  · rw [scope_place hscope] at houter
    split at houter
    · exact ht.older id outer houter
    · exact ht.older id outer houter
  · have hold (hmem : (n, .symbol x) ∈ (t.scope id).names) : x < (d.place t scope).symbols.size :=
      Nat.lt_of_lt_of_le (ht.known id n x hmem) symbols_place
    rw [scope_place hscope] at hmem
    split at hmem
    · rcases mem_cons.1 hmem with hhead | htail
      · cases d <;> simp [Declaration.entry] at hhead
        simp [hhead, Declaration.place, Declaration.added, bind]
      · exact hold htail
    · exact hold hmem

lemma Keeps.refl (t : ScopeTree) : t.Keeps t :=
  ⟨Nat.le_refl _, Nat.le_refl _, fun _ _ _ _ => id, fun _ _ => rfl⟩

lemma Keeps.trans (h : t.Keeps t') (h' : t'.Keeps later) : t.Keeps later where
  scopes := Nat.le_trans h.scopes h'.scopes
  symbols := Nat.le_trans h.symbols h'.symbols
  names id hid n entry hentry :=
    h'.names id (Nat.lt_of_lt_of_le hid h.scopes) n entry (h.names id hid n entry hentry)
  symbol x hx := by rw [h'.symbol x (Nat.lt_of_lt_of_le hx h.symbols), h.symbol x hx]

lemma keeps_pushScope : t.Keeps (t.pushScope parent).2 where
  scopes := by simp [ScopeTree.pushScope]
  symbols := Nat.le_refl _
  names id hid n entry hentry := by rwa [scope_pushScope, if_neg (Nat.ne_of_lt hid)]
  symbol _ _ := rfl

lemma keeps_place (hscope : scope < t.scopes.size)
    (hnew : (t.scope scope).names.lookup d.name = none) : t.Keeps (d.place t scope) where
  scopes := Nat.le_of_eq (size_place t scope d).symm
  symbols := symbols_place
  names id _ n entry hentry := by
    rw [scope_place hscope]
    split
    · subst id
      have hne : n ≠ d.name := by
        rintro rfl
        simp [hnew] at hentry
      rwa [lookup_cons, beq_false_of_ne hne]
    · exact hentry
  symbol _ := symbol_place

lemma Call.keeps (ht : t.WellFormed) (call : Call) (hmeets : call.Meets t) :
    (call.result t).WellFormed ∧ t.Keeps (call.result t) := by
  cases call with
  | pushScope parent => exact ⟨ht.pushScope hmeets, keeps_pushScope⟩
  | declare scope d =>
    simp only [result, Declaration.declare_eq]
    cases hnew : (t.scope scope).names.lookup d.name with
    | none => exact ⟨ht.place hmeets hnew, keeps_place hmeets hnew⟩
    | some earlier => exact ⟨ht, .refl t⟩

lemma History.keeps (ht : t.WellFormed) (h : t.History later) : later.WellFormed ∧ t.Keeps later := by
  induction h with
  | start => exact ⟨ht, .refl t⟩
  | next call _ hmeets ih =>
    obtain ⟨hwell, hkeeps⟩ := call.keeps ih.1 hmeets
    exact ⟨hwell, ih.2.trans hkeeps⟩

lemma wellFormed_empty : ({} : ScopeTree).WellFormed :=
  ⟨fun _ => nodup_nil, by simp [scope, default], by simp [scope, default]⟩

/-! ## Look-up -/

namespace WellFormed

variable (ht : t.WellFormed)
include ht

/-- The walk stays among the scopes, so a longer one finds no more of them. -/
lemma chainWithin_eq (hm : id < m) (hn : id < n) :
    t.chainWithin m id = t.chainWithin n id := by
  induction m generalizing n id with
  | zero => exact absurd hm (Nat.not_lt_zero id)
  | succ m ih =>
    obtain ⟨n, rfl⟩ := Nat.exists_eq_succ_of_ne_zero (Nat.ne_of_gt (Nat.zero_lt_of_lt hn))
    rw [chainWithin, chainWithin]
    cases hparent : (t.scope id).parent with
    | none => rfl
    | some parent =>
      have hlt := ht.older id parent hparent
      simp only [ih (Nat.lt_of_lt_of_le hlt (Nat.le_of_lt_succ hm))
        (Nat.lt_of_lt_of_le hlt (Nat.le_of_lt_succ hn))]

lemma chain_eq (hid : id < t.scopes.size) : t.chain id = id :: match (t.scope id).parent with
      | some parent => t.chain parent
      | none => [] := by
  rw [chain, ht.chainWithin_eq hid (Nat.lt_succ_of_lt hid), chainWithin]
  rfl

lemma answers (name : String) (source : Option SourceId)
    (hid : id < t.scopes.size) : t.Answers name source id (t.lookup? id name source) := by
  -- The walk goes to older scopes only.
  induction id using Nat.strongRecOn with
  | ind id ih =>
    rw [lookup?, ht.chain_eq hid, findSome?_cons]
    cases hvisible : t.visible? name source id with
    | some entry => exact .here hvisible
    | none =>
      cases hparent : (t.scope id).parent with
      | none => exact .outside hvisible hparent
      | some parent =>
        have hlt := ht.older id parent hparent
        exact .outward hvisible hparent (ih parent hlt (Nat.lt_trans hlt hid))

/-- A meaning that a scope gives is found from the scope itself and from the source of the
declaration. -/
lemma finds (hid : id < t.scopes.size)
    (hentry : (t.scope id).names.lookup name = some entry) :
    t.Finds id name (t.entryToken entry).source entry := by
  have hlook : t.lookup? id name (t.entryToken entry).source = some entry := by
    rw [lookup?, ht.chain_eq hid, findSome?_cons, visible?, hentry]
    simp [Option.filter, isVisible]
  cases entry with
  | symbol => simp [Finds, lookupSymbol?, hlook]
  | record => simp [Finds, lookupRecord?, hlook]
  | enum => simp [Finds, lookupEnum?, hlook]

/-- A declaration does not change what a scope shows of another name, nor what another scope shows. -/
lemma visible?_place (hscope : scope < t.scopes.size)
    (hother : name ≠ d.name ∨ id ≠ scope) :
    (d.place t scope).visible? name source id = t.visible? name source id := by
  have hnames : ((d.place t scope).scope id).names.lookup name = (t.scope id).names.lookup name := by
    rw [scope_place hscope]
    split
    · rw [lookup_cons, beq_false_of_ne (hother.resolve_right (not_not_intro ‹_›))]
    · rfl
  have hvisible (entry : ScopeEntry) (hentry : (t.scope id).names.lookup name = some entry) :
      (d.place t scope).isVisible entry source = t.isVisible entry source := by
    cases entry with
    | symbol x =>
      have hx := ht.known id name x (mem_of_lookup hentry)
      simp only [isVisible, isInternal, entryToken, symbol_place hx]
    | record | enum => rfl
  rw [visible?, visible?, hnames]
  cases hentry : (t.scope id).names.lookup name with
  | none => rfl
  | some entry => simp only [Option.filter, hvisible entry hentry]

lemma lookup?_place (hscope : scope < t.scopes.size)
    (hother : name ≠ d.name ∨ scope ∉ t.chain id) :
    (d.place t scope).lookup? id name source = t.lookup? id name source := by
  have hchain (fuel : Nat) (id : ScopeId) :
      (d.place t scope).chainWithin fuel id = t.chainWithin fuel id := by
    induction fuel generalizing id with
    | zero => rfl
    | succ _ ih =>
      have hparent : ((d.place t scope).scope id).parent = (t.scope id).parent := by
        rw [scope_place hscope]
        split <;> rfl
      rw [chainWithin, chainWithin, hparent]
      simp only [ih]
  rw [lookup?, lookup?, chain, hchain, size_place, ← chain, ← head?_filterMap, ← head?_filterMap,
    filterMap_congr fun x hx => ht.visible?_place hscope
      (hother.imp_right fun hout hx' => hout (hx' ▸ hx))]

end WellFormed

/-- Each look-up gives what the innermost visible meaning of a name has for it. -/
lemma lookup?_cases :
    (∀ x, t.lookupSymbol? id name source = some x ↔ t.lookup? id name source = some (.symbol x)) ∧
    (∀ type, t.lookupRecord? id name source = some type ↔
      ∃ entry, t.lookup? id name source = some (.record entry) ∧ entry.type = type) ∧
    ∀ type, t.lookupEnum? id name source = some type ↔
      ∃ entry, t.lookup? id name source = some (.enum entry) ∧ entry.type = type := by
  unfold lookupSymbol? lookupRecord? lookupEnum?
  cases t.lookup? id name source with
  | none => simp
  | some entry => cases entry <;> simp

/-- Under every history of calls, a name has one meaning in a scope.  A declaration is refused exactly
when its name has a meaning there, with the token of that meaning.  One that is accepted is found from
its scope and its source at all later times, refuses its name to all others, and leaves the look-ups of
other names, and those that do not pass its scope, as they were.  A look-up walks outwards to the first
visible meaning, and the walk ends. -/
theorem History.consistent (h : History {} t) :
    (∀ id, ((t.scope id).names.map (·.1)).Nodup) ∧
    (∀ id < t.scopes.size, ∀ name source, ∃ answer, t.Answers name source id answer ∧
      (∀ x, t.lookupSymbol? id name source = some x ↔ answer = some (.symbol x)) ∧
      (∀ type, t.lookupRecord? id name source = some type ↔
        ∃ entry, answer = some (.record entry) ∧ entry.type = type) ∧
      ∀ type, t.lookupEnum? id name source = some type ↔
        ∃ entry, answer = some (.enum entry) ∧ entry.type = type) ∧
    ∀ scope < t.scopes.size, ∀ d : Declaration,
      (∀ e, d.declare t scope = .error e ↔ ∃ entry,
        (t.scope scope).names.lookup d.name = some entry ∧ e = ⟨d.name, t.entryToken entry⟩) ∧
      (∀ e, d.declare t scope = .error e → (Call.declare scope d).result t = t) ∧
      ∀ entry t', d.declare t scope = .ok (entry, t') →
        (∀ later, t'.History later → later.Finds scope d.name d.token.source entry ∧
          ∀ other : Declaration, other.name = d.name →
            other.declare later scope = .error ⟨d.name, d.token⟩) ∧
        ∀ id name source, name ≠ d.name ∨ scope ∉ t.chain id →
          t'.lookupSymbol? id name source = t.lookupSymbol? id name source ∧
          t'.lookupRecord? id name source = t.lookupRecord? id name source ∧
          t'.lookupEnum? id name source = t.lookupEnum? id name source := by
  have ht := (h.keeps wellFormed_empty).1
  refine ⟨ht.nodup, fun id hid name source => ⟨_, ht.answers name source hid, lookup?_cases⟩,
    fun scope hscope d => ⟨fun e => ?_, fun e he => ?_, fun entry t' hdeclare => ?_⟩⟩
  · rw [Declaration.declare_eq]
    cases (t.scope scope).names.lookup d.name with
    | none => simp
    | some earlier => simp [eq_comm]
  · rw [Call.result, he]
  · rw [Declaration.declare_eq] at hdeclare
    cases hnew : (t.scope scope).names.lookup d.name with
    | some earlier => simp [hnew] at hdeclare
    | none =>
      obtain ⟨rfl, rfl⟩ : d.entry t = entry ∧ d.place t scope = t' := by simpa [hnew] using hdeclare
      refine ⟨fun later hlater => ?_, fun id name source hother => ?_⟩
      · obtain ⟨hwell, hkeeps⟩ := hlater.keeps (ht.place hscope hnew)
        have hscope' := (size_place t scope d).symm ▸ hscope
        have hfound : (later.scope scope).names.lookup d.name = some (d.entry t) :=
          hkeeps.names scope hscope' d.name _ (by simp [scope_place hscope])
        have htoken : later.entryToken (d.entry t) = d.token := by
          cases d with
          | symbol s =>
            have hx : t.symbols.size < ((Declaration.symbol s).place t scope).symbols.size := by
              simp [Declaration.place, Declaration.added, bind]
            rw [Declaration.entry, entryToken, hkeeps.symbol _ hx]
            simp [symbol, Declaration.place, Declaration.added, bind, Declaration.token]
          | record | enum => rfl
        refine ⟨htoken ▸ hwell.finds (Nat.lt_of_lt_of_le hscope' hkeeps.scopes) hfound,
          fun other hname => ?_⟩
        rw [Declaration.declare_eq, hname, hfound, ← htoken]
      · simp only [lookupSymbol?, lookupRecord?, lookupEnum?, ht.lookup?_place hscope hother, and_self]

/-- A name with a symbol outside, and a class inside. -/
def shadowed : ScopeTree :=
  [.pushScope none, .pushScope (some 0),
    .declare 0 (.symbol { name := "T", kind := .variable, type := none, token := ⟨some 1, 7⟩ }),
    .declare 1 (.record "T" ⟨4, ⟨some 2, 9⟩, true⟩)].foldl Call.result {}

lemma History.shadowed : History {} ScopeTree.shadowed := by
  simp only [ScopeTree.shadowed, List.foldl]
  refine .next _ (.next _ (.next _ (.next _ .start ?_) ?_) ?_) ?_
  all_goals decide

/-- From the source of the symbol, the class does not hide it. -/
theorem History.consistent_shadowed : History {} ScopeTree.shadowed ∧
    ScopeTree.shadowed.lookupSymbol? 1 "T" (some 1) = some 0 ∧
    ScopeTree.shadowed.Answers "T" (some 1) 1 (some (.symbol 0)) ∧
    (Declaration.enum "T" ⟨5, ⟨some 3, 11⟩, false⟩).declare ScopeTree.shadowed 1 =
      .error ⟨"T", ⟨some 2, 9⟩⟩ := by
  obtain ⟨-, hanswers, hdeclare⟩ := consistent .shadowed
  obtain ⟨answer, hanswer, hsymbol, -⟩ := hanswers 1 (by decide) "T" (some 1)
  have hfound : ScopeTree.shadowed.lookupSymbol? 1 "T" (some 1) = some 0 := by decide
  exact ⟨.shadowed, hfound, (hsymbol 0).1 hfound ▸ hanswer,
    ((hdeclare 1 (by decide) (.enum "T" ⟨5, ⟨some 3, 11⟩, false⟩)).1 _).2 ⟨_, rfl, rfl⟩⟩

/-! ## Types by name -/

/-- The type that the first scope at the outside declares under a name. -/
def outerType? (t : ScopeTree) (name : String) (source : Option SourceId) : Option TypeId :=
  t.root? >>= t.visible? name source >>= ScopeEntry.type?

/-- Where the innermost visible meaning of a name is a type, the name is resolved to it exactly when the
first scope at the outside does not show another type under the name.  Otherwise that type is taken. -/
theorem resolveType?_eq_iff {type : TypeId} (h : t.lookupRecord? scope name source = some type ∨
      t.lookupEnum? scope name source = some type) :
    (t.resolveType? scope name source = some type ↔ ∀ outer ∈ t.outerType? name source, outer = type) ∧
    ∀ outer ∈ t.outerType? name source, t.resolveType? scope name source = some outer := by
  have hinner : t.lookup? scope name source >>= ScopeEntry.type? = some type := by
    unfold lookupRecord? lookupEnum? at h
    cases hlookup : t.lookup? scope name source with
    | none => simp [hlookup] at h
    | some entry => cases entry <;> simp_all [ScopeEntry.type?]
  rw [resolveType?, hinner, ← outerType?]
  cases t.outerType? name source with
  | none => simp
  | some outer => simp

/-- A class inside a scope whose outside has one of the same name. -/
def eclipsed : ScopeTree :=
  [.pushScope none, .pushScope (some 0), .declare 0 (.record "T" ⟨4, .synthesized, false⟩),
    .declare 1 (.record "T" ⟨5, .synthesized, false⟩)].foldl Call.result {}

theorem resolveType?_eq_iff_shadowed : ScopeTree.shadowed.lookupRecord? 1 "T" (some 2) = some 4 ∧
    ScopeTree.shadowed.resolveType? 1 "T" (some 2) = some 4 :=
  ⟨by decide, (resolveType?_eq_iff (.inl (by decide))).1.2 (by decide +kernel)⟩

theorem resolveType?_eclipsed : eclipsed.lookupRecord? 1 "T" none = some 5 ∧
    eclipsed.resolveType? 1 "T" none = some 4 := by decide +kernel

end ScopeTree

end CompilerCore
