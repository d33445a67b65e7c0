import CompilerCore.Proofs.Analysis.Verdicts

/-!
# Accepted expressions are well typed

Analysis keeps its state sound: all types of symbols, scopes and the innermost switch are in the
table.  An expression whose types are in the table keeps that property, as does one whose literals are
normal, and when analysis finds no error in it, the result is well typed: coherent and resolved.
-/

namespace CompilerCore

open Array Option TypeTable

/-! ## Symbols and scopes -/

namespace ScopeTree

variable {scopes : ScopeTree} {n : Nat}

lemma field_modifySymbol (g : Symbol → α) (scopes : ScopeTree) (id x : SymbolId)
    (hf : ∀ symbol, g (f symbol) = g symbol) :
    g ((scopes.modifySymbol id f).symbol x) = g (scopes.symbol x) := by
  unfold symbol modifySymbol
  simp only [getD_eq_getD_getElem?, getElem?_modify]
  split
  · cases scopes.symbols[x]? with
    | none => rfl
    | some found => exact hf found
  · rfl

lemma type_modifySymbol_of_ne {id : SymbolId} (h : x ≠ id) (f : Symbol → Symbol) :
    ((scopes.modifySymbol id f).symbol x).type = (scopes.symbol x).type := by
  unfold symbol modifySymbol
  rw [getD_eq_getD_getElem?, getD_eq_getD_getElem?, getElem?_modify,
    if_neg h.symm]

lemma type_setType {id : SymbolId} (h : id < scopes.symbols.size) (type : TypeId) :
    ((scopes.modifySymbol id fun s => { s with type := some type }).symbol id).type =
      some type := by
  unfold symbol modifySymbol
  rw [getD_eq_getD_getElem?, getElem?_modify, if_pos rfl, getElem?_eq_getElem h]
  rfl

/-- The types that the names of scopes stand for are among the first `n`. -/
def Declares (scopes : ScopeTree) (n : Nat) : Prop :=
  ∀ scope ∈ scopes.scopes, ∀ entry ∈ scope.names, ∀ type ∈ entry.2.type?, type < n

instance (scopes : ScopeTree) (n : Nat) : Decidable (scopes.Declares n) := by
  unfold Declares
  infer_instance

lemma Declares.lookup (h : scopes.Declares n) {scope : ScopeId}
    (hlook : scopes.lookup? scope name source = some entry) : ∀ type ∈ entry.type?, type < n := by
  obtain ⟨id, -, hvisible⟩ := List.exists_of_findSome?_eq_some hlook
  obtain ⟨hfound, -⟩ := filter_eq_some_iff.1 hvisible
  have hmem := mem_of_lookup hfound
  by_cases hid : id < scopes.scopes.size
  · refine h (scopes.scope id) ?_ _ hmem
    unfold ScopeTree.scope
    rw [getD_eq_getD_getElem?, getElem?_eq_getElem hid]
    exact getElem_mem hid
  · unfold ScopeTree.scope at hmem
    rw [Array.getD_eq_getD_getElem?, Array.getElem?_eq_none (Nat.le_of_not_lt hid)] at hmem
    cases hmem

end ScopeTree

namespace Analysis

open CompilerCore.Expr

/-- The number of types in the table. -/
def State.count (s : State) : Nat := s.types.slots.size

/-- A state in which no type is missing. -/
structure State.Sound (s : State) : Prop where
  types : s.types.Sound
  symbols : s.scopes.Typed s.types
  entries : s.scopes.Declares s.count
  switch : ∀ open_ ∈ s.switch, ∀ type ∈ open_.valueType, type < s.count

/-- Analysis may add types and give symbols a type that had none. -/
structure State.Extends (s s' : State) : Prop where
  sound : s'.Sound
  types : s.types.Leads s'.types
  symbols : ∀ x type, (s.scopes.symbol x).type = some type → (s'.scopes.symbol x).type = some type
  flags : ∀ x, (s'.scopes.symbol x).isImmutable = (s.scopes.symbol x).isImmutable
  size : s'.scopes.symbols.size = s.scopes.symbols.size

/-- Analysis of an expression may add types; symbols keep theirs. -/
structure State.Grows (s s' : State) : Prop extends State.Extends s s' where
  same : ∀ x, (s'.scopes.symbol x).type = (s.scopes.symbol x).type

/-- What analysis has made of a node up to a state. -/
abbrev State.Vets (s : State) (tidy accepted : Prop) : Expr → Prop :=
  Vetted tidy accepted s.types s.scopes

namespace State

variable {s s' s'' : State}

lemma Extends.trans (h : s.Extends s') (h' : s'.Extends s'') : s.Extends s'' :=
  ⟨h'.sound, h.types.trans h'.types, fun x type htype => h'.symbols x type (h.symbols x type htype),
    fun x => (h'.flags x).trans (h.flags x), h'.size.trans h.size⟩

lemma Extends.count (h : s.Extends s') : s.count ≤ s'.count := h.types.size

/-- What analysis has made of an expression stays so; it may count as not accepted. -/
lemma Extends.vetted {e : Expr} (h : s.Extends s') (hs : s.Sound) (hacc : accepted' → accepted)
    (he : e.All (s.Vets tidy accepted)) : e.All (s'.Vets tidy accepted') := by
  have hknown : e.All (Known s.count) := he.mono fun _ hv => hv.known
  refine hknown.imp (fun n hn hv => ?_) he
  exact ⟨hv.known.mono h.count, fun htidy => (hv.normal htidy).leads h.types hs.types hv.known,
    fun ha => (hv.wellTyped (hacc ha)).leads h.types hs.types hs.symbols h.symbols h.flags hn⟩

lemma Grows.trans (h : s.Grows s') (h' : s'.Grows s'') : s.Grows s'' :=
  ⟨h.toExtends.trans h'.toExtends, fun x => (h'.same x).trans (h.same x)⟩

lemma Sound.quiet (hs : s.Sound) (h : Quiet s s') : s.Grows s' := by
  obtain ⟨d, rfl⟩ := h
  exact ⟨⟨⟨hs.types, hs.symbols, hs.entries, hs.switch⟩, .refl _, fun _ _ => id, fun _ => rfl, rfl⟩,
    fun _ => rfl⟩

lemma Sound.refl (hs : s.Sound) : s.Grows s := hs.quiet (.refl s)

lemma Sound.makes (hs : s.Sound) (h : s.types.Makes result) :
    s.Grows { s with types := result.2 } where
  sound :=
    { types := h.sound
      symbols := fun x type htype => (hs.symbols x type htype).trans_le h.leads.size
      entries := fun scope hscope entry hentry type htype =>
        (hs.entries scope hscope entry hentry type htype).trans_le h.leads.size
      switch := fun o ho type htype => (hs.switch o ho type htype).trans_le h.leads.size }
  types := h.leads
  symbols _ _ := id
  flags _ := rfl
  size := rfl
  same _ := rfl

lemma Sound.markReferenced (hs : s.Sound) (id : SymbolId) : s.Grows { s with
      scopes := s.scopes.modifySymbol id fun symbol => { symbol with isReferenced := true } } := by
  have hfield {α : Type} (g : Symbol → α)
      (hg : ∀ symbol : Symbol, g { symbol with isReferenced := true } = g symbol) (x : SymbolId) :=
    ScopeTree.field_modifySymbol g s.scopes id x hg
  have htype := hfield Symbol.type fun _ => rfl
  exact ⟨⟨⟨hs.types, fun x type h => hs.symbols x type (htype x ▸ h), hs.entries, hs.switch⟩, .refl _,
    fun x _ => (htype x).trans, hfield Symbol.isImmutable fun _ => rfl, size_modify⟩, htype⟩

lemma Extends.note {type? : Option TypeId} (h : s.Extends s') (ht : ∀ type ∈ type?, type < s.count) :
    ∀ type ∈ type?, type < s'.count :=
  fun type htype => (ht type htype).trans_le h.count

end State

/-! ## Steps that make types -/

variable {s : State} {c : Context} {tok : Token}

lemma makeType_gives (hs : s.Sound) (h : s.types.Makes (f s.types)) :
    Gives (makeType f) s fun type s' => s.Grows s' ∧ type < s'.count :=
  ⟨hs.makes h, h.known⟩

lemma integerType_ranges {t : TypeTable} (ht : t.Sound) {value : Int64} :
    integerType value < t.slots.size ∧ t.Ranges (integerType value) value := by
  unfold integerType
  split
  · next h => exact ⟨(ht.builtin (.signed .w32)).1, ht.ranges_signed (Scalar.holds_half h)⟩
  · exact ⟨(ht.builtin (.signed .w64)).1, ht.ranges_signed (Scalar.holds_word true value)⟩

lemma literalType_gives (hs : s.Sound) {value : Literal} :
    Gives (literalType value) s fun type s' => s.Grows s' ∧ type < s'.count ∧
      ∀ note : Note, note.type = some type → (Expr.literal note value).Normal s'.types := by
  cases value with
  | integer value =>
    obtain ⟨hlt, hranges⟩ := integerType_ranges hs.types
    refine ⟨hs.refl, hlt, fun note hnote type htype => ?_⟩
    obtain rfl := some.inj (hnote.symm.trans htype)
    exact .inl hranges
  | float => exact ⟨hs.refl, (hs.types.builtin (.float .w64)).1, fun _ _ => trivial⟩
  | bool => exact ⟨hs.refl, (hs.types.builtin .bool).1, fun _ _ => trivial⟩
  | text =>
    have hmakes := hs.types.arrayOf (hs.types.builtin (.signed .w8)).1
    exact ⟨hs.makes (hmakes _), (hmakes _).known, fun _ _ => trivial⟩
  | null =>
    have hmakes := hs.types.pointerTo (hs.types.builtin .void).1
    exact ⟨hs.makes hmakes, hmakes.known, fun _ _ => trivial⟩

lemma nameVerdict_gives (hs : s.Sound) {name : String} {known : Option SymbolId} :
    Gives (nameVerdict c tok name known) s fun r s' => s.Grows s' ∧
      Judges (fun typing => typing.type < s'.count ∧ ∃ x type, r.1 = some x ∧
        (s'.scopes.symbol x).type = some type ∧ s'.types.kind typing.type = s'.types.kind type ∧
        (typing.type = type ∧ (s'.scopes.symbol x).isImmutable = false ∨
          s'.types.Qualified typing.type)) r.2 := by
  refine .seq (Q := fun _ s' => s' = s) rfl fun found s0 hs0 => ?_
  subst hs0
  cases found with
  | none => exact ⟨hs.quiet ⟨_, rfl⟩, Nat.one_ne_zero⟩
  | some id =>
    refine .seq (Q := fun _ s' => s0.Grows s') (hs.markReferenced id) fun _ s1 hg1 => .get ?_
    dsimp only
    split
    · exact ⟨hg1.trans (hg1.sound.quiet ⟨_, rfl⟩), Nat.one_ne_zero⟩
    · next type htype =>
      have hlt : type < s1.count := hg1.sound.symbols id type htype
      split
      · obtain ⟨hmakes, hshape, hqual⟩ := hg1.sound.types.immutable hlt
        have hg2 := hg1.sound.makes hmakes
        refine ⟨hg1.trans hg2, hmakes.known, id, type, rfl, htype, ?_, .inr hqual⟩
        exact (kind_eq_of_shape hshape).trans (hg2.types.kind hlt).symm
      · next hflag =>
        exact ⟨hg1, hlt, id, type, rfl, htype, rfl, .inl ⟨rfl, Bool.eq_false_iff.2 hflag⟩⟩

lemma constantOwner_gives (hs : s.Sound) :
    Gives (constantOwner c tok scope) s fun o s' => s' = s ∧ ∀ owner ∈ o, owner.1 < s.count := by
  refine .get ?_
  dsimp only
  split
  · next type hlook =>
    refine ⟨rfl, fun owner howner => ?_⟩
    obtain rfl : (type, true) = owner := some.inj howner
    unfold ScopeTree.lookupEnum? at hlook
    split at hlook
    · next entry hentry =>
      cases hlook
      exact hs.entries.lookup hentry _ rfl
    · cases hlook
  · refine ⟨rfl, fun owner howner => ?_⟩
    obtain ⟨type, hlook, rfl⟩ := map_eq_some_iff.1 howner
    unfold ScopeTree.lookupRecord? at hlook
    split at hlook
    · next entry hentry =>
      cases hlook
      exact hs.entries.lookup hentry _ rfl
    · cases hlook

lemma qualifiedConstant_gives (hs : s.Sound) {scope member : String} :
    Gives (qualifiedConstant c tok scope member) s fun o s' => Quiet s s' ∧
      ∀ e ∈ o, ∃ type value, e = Expr.constant (.integer value) tok type ∧ type < s.count ∧
        s.types.Offers type value := by
  refine (constantOwner_gives hs).seq fun owner s0 ⟨hs0, howner⟩ => ?_
  subst hs0
  cases owner with
  | none => exact ⟨⟨_, rfl⟩, nofun⟩
  | some found =>
    obtain ⟨owner, isEnum⟩ := found
    refine .types ?_
    cases hvalue : s0.types.constantValue? owner member with
    | none => exact ⟨⟨_, rfl⟩, nofun⟩
    | some value =>
      refine ⟨.refl _, fun e he => ⟨_, value, (some.inj he).symm, ?_⟩⟩
      split
      · exact ⟨howner _ rfl, .inr ⟨owner, howner _ rfl, follows_of_shape rfl, member, hvalue⟩⟩
      · exact (integerType_ranges hs.types).imp_right .inl

variable {elems : List Expr} {e : Expr} {note : Note} {text : String}

lemma collectionType_gives (hs : s.Sound) (helements : ∀ e ∈ elems, Fits s.types s.scopes e)
    (hexp : ∀ type ∈ expected, type < s.count ∧ s.types.isArray type = true) :
    Gives (collectionType tok elems expected) s fun o s' =>
      s.Grows s' ∧ ∀ type ∈ o, type < s'.count ∧ s'.types.isArray type = true := by
  refine .seq (Q := fun t s' => t = s.types ∧ s' = s) ⟨rfl, rfl⟩ fun t s0 ⟨ht, hs0⟩ => ?_
  subst hs0 ht
  split
  · next array =>
    split
    · exact ⟨hs.quiet ⟨_, rfl⟩, nofun⟩
    · refine ⟨hs.refl, fun type htype => ?_⟩
      obtain rfl : array = type := some.inj htype
      exact hexp array rfl
  · split
    · exact ⟨hs.quiet ⟨_, rfl⟩, nofun⟩
    · next first hfirst =>
      have hlt := hs.types.unqualified_lt (helements first (List.mem_of_head? hfirst)).typeOf_lt
      have hmakes := hs.types.arrayOf hlt (UInt64.ofNat elems.length)
      refine .seq (Q := fun type s' => s0.Grows s' ∧ type < s'.count ∧
        s'.types.isArray type = true) ⟨hs.makes hmakes, hmakes.known, ?_⟩
        fun type s1 ⟨hg, hlt, harray⟩ => ⟨hg, fun type' htype => ?_⟩
      · exact isArray_of_shape (shape_intern _ _)
      · obtain rfl : type = type' := some.inj htype
        exact ⟨hlt, harray⟩

lemma callTarget_gives (hs : s.Sound) :
    Gives (callTarget c tok callee) s fun o s' => s.Grows s' ∧ ∀ target ∈ o,
      s'.scopes.Calls s'.types target.1 ∧ target.2.result < s'.count ∧
        ∀ p ∈ target.2.parameters, p.type < s'.count := by
  refine .seq (Q := fun _ s' => s' = s) rfl fun found s0 hs0 => ?_
  subst hs0
  cases found with
  | none => exact ⟨hs.quiet ⟨_, rfl⟩, nofun⟩
  | some id =>
    refine .seq (Q := fun _ s' => s0.Grows s') (hs.markReferenced id) fun _ s1 hg1 => .get ?_
    split
    · exact ⟨hg1.trans (hg1.sound.quiet ⟨_, rfl⟩), nofun⟩
    · next signature hsig =>
      refine ⟨hg1, fun target htgt => ?_⟩
      obtain rfl : (id, signature) = target := some.inj htgt
      unfold signature? at hsig
      split at hsig
      · next type _ htype =>
        split at hsig
        · next result parameters isVariadic hshape =>
          cases hsig
          have hlt {r : TypeId} (hr : r ∈ (Shape.function result parameters isVariadic).references) :
              r < s1.count := hg1.sound.types.references_lt hshape hr
          have hfun : s1.types.isFunction type = true := by
            rw [isFunction, hshape]
          exact ⟨⟨type, htype, hfun⟩, hlt (.head _),
            fun p hp => hlt (.tail _ (List.mem_map_of_mem hp))⟩
        · cases hsig
      · cases hsig

lemma nested_depthOfList {t : TypeTable} (h : ∀ e ∈ elems, t.Nested e.depth type) :
    t.Nested (depthOfList elems) type := by
  induction elems with
  | nil => exact t.nested_zero type
  | cons _ _ ih =>
    rw [List.forall_mem_cons] at h
    exact nested_max h.1 (ih h.2)

variable {tidy : Prop}

lemma collection_gives (hs : s.Sound) (helements : ∀ e ∈ elems, e.All (s.Vets tidy True))
    {expected : Option TypeId}
    (hexp : ∀ type ∈ expected, type < s.count ∧ s.types.isArray type = true) :
    Gives (collectionVerdict tok elems expected) s fun r s' => s.Grows s' ∧
      (∀ e ∈ r.1, e.All (s'.Vets tidy True)) ∧
      Judges (fun typing => typing.type < s'.count ∧ typing.isPlace = false ∧
        s'.types.Nested (depthOfList r.1 + 1) typing.type) r.2 := by
  refine (collectionType_gives hs (fun e he => fits_of_all (helements e he)) hexp).seq
    fun array s1 ⟨hg, harray⟩ => ?_
  have helements1 : ∀ e ∈ elems, e.All (s1.Vets tidy True) :=
    fun e he => hg.vetted hs id (helements e he)
  cases array with
  | none => exact ⟨hg, helements1, Nat.one_ne_zero⟩
  | some array =>
    refine .types ?_
    have helem : (s1.types.element? array).getD TypeId.void < s1.types.slots.size := by
      cases helem : s1.types.element? array with
      | none => exact (hg.sound.types.builtin .void).1
      | some => exact hg.sound.types.element_lt helem
    refine (convertAll_quietly hg.sound.types helem
      fun e he => fits_of_all (helements1 e he)).gives.seq
      fun (elements', errors) s2 ⟨hquiet, hwraps, hmeets⟩ => ?_
    have hg2 := hg.sound.quiet hquiet
    obtain ⟨d, rfl⟩ := hquiet
    have helements2 := all_vetted hwraps helements1
    refine ⟨hg.trans hg2, helements2, ?_⟩
    dsimp only
    split
    · next herrs => exact herrs.ne'
    · next herrs =>
      obtain ⟨element, length, hshape⟩ := TypeTable.exists_of_isArray (harray array rfl).2
      have hnested := nested_depthOfList fun e he => (hmeets (Nat.eq_zero_of_not_pos herrs) e he).nested
        (fits_of_all (helements2 e he)).wellTyped.layered
      rw [element?, hshape] at hnested
      exact ⟨(harray array rfl).1, rfl, element, length, hshape, hnested⟩

lemma address_gives (hs : s.Sound) (he : Fits s.types s.scopes e) :
    Gives (unaryVerdict tok .address e) s fun r s' => s.Grows s' ∧ r.1 = e ∧
      Judges (fun typing => typing.type < s'.count ∧ typing.isPlace = false) r.2 := by
  refine .types ?_
  dsimp only
  split
  · exact ⟨hs.quiet ⟨_, rfl⟩, rfl, Nat.one_ne_zero⟩
  · exact (makeType_gives hs (hs.types.pointerTo he.typeOf_lt)).seq
      fun type s1 ⟨hg, hlt⟩ => ⟨hg, rfl, hlt, rfl⟩

/-! ## Expressions -/

/-- All nodes of an expression but itself have a property. -/
def Below (P : Expr → Prop) (e : Expr) : Prop := ∀ n ∈ e.nodes.tail, P n

section Below

variable {P : Expr → Prop} {x y : Expr}

lemma all_of_below (h : P e) (hbelow : Below P e) : e.All P := by
  have hnodes : e.nodes = e :: e.nodes.tail := by
    cases e with
    | declare _ _ init => cases init <;> rfl
    | _ => rfl
  intro n hn
  rw [hnodes] at hn
  obtain rfl | hn := List.mem_cons.1 hn
  · exact h
  · exact hbelow n hn

lemma below_withNote (h : Below P e) : Below P (e.withNote note) := by
  cases e with
  | declare _ _ init => cases init <;> exact h
  | _ => exact h

lemma below_of_part (h : e.nodes = e :: x.nodes) (hx : x.All P) : Below P e := by
  rwa [Below, h]

lemma below_of_parts (h : e.nodes = e :: (x.nodes ++ y.nodes)) (hx : x.All P) (hy : y.All P) :
    Below P e := by
  rw [Below, h]
  exact List.forall_mem_append.2 ⟨hx, hy⟩

lemma below_of_list (h : e.nodes = e :: nodesOfList es) (hes : ∀ x ∈ es, x.All P) : Below P e := by
  rw [Below, h]
  exact forall_nodesOfList.2 hes

end Below

/-- An expression all of whose parts are vetted, while it itself is still being checked. -/
structure State.Mounts (s : State) (tidy accepted : Prop) (e : Expr) : Prop where
  known : e.Known s.count
  normal : tidy → e.Normal s.types
  below : Below (s.Vets tidy accepted) e

/-- The outcome of the analysis of an expression. -/
def Analyzed (tidy : Prop) (s : State) (r : Expr × Nat) (s' : State) : Prop :=
  s.Grows s' ∧ r.1.All (s'.Vets tidy (r.2 = 0))

variable {accepted : Prop} {errors : Nat} {s0 : State}

lemma vetted_imp (h : accepted' → accepted) (he : e.All (s.Vets tidy accepted)) :
    e.All (s.Vets tidy accepted') :=
  he.mono fun _ hv => ⟨hv.known, hv.normal, fun ha => hv.wellTyped (h ha)⟩

lemma accept (h : accepted) (he : e.All (s.Vets tidy accepted)) : e.All (s.Vets tidy True) :=
  vetted_imp (fun _ => h) he

lemma State.Mounts.rejected (h : s.Mounts tidy accepted e) (hacc : errors = 0 → accepted)
    (herrs : errors ≠ 0) : e.All (s.Vets tidy (errors = 0)) :=
  all_of_below ⟨h.known, h.normal, fun hzero => absurd hzero herrs⟩ fun n hn =>
    have hv := h.below n hn
    ⟨hv.known, hv.normal, fun hzero => hv.wellTyped (hacc hzero)⟩

/-- A typing that settles a node. -/
structure Settles (tidy : Prop) (s : State) (e : Expr) (typing : Typing) : Prop where
  known : typing.type < s.count
  settled : ∀ note : Note, note.type = some typing.type → note.isPlace = typing.isPlace →
    (tidy → (e.withNote note).Normal s.types) ∧ (e.withNote note).WellTyped s.types s.scopes

lemma conclude_gives (hg : s0.Grows s) (he : s.Mounts tidy True e)
    (hverdict : Judges (Settles tidy s e) verdict) :
    Gives (conclude e verdict) s (Analyzed tidy s0) := by
  cases verdict with
  | error => exact ⟨hg, he.rejected (fun _ => trivial) hverdict⟩
  | ok typing =>
    obtain ⟨hknown, hsettled⟩ := hverdict
    obtain ⟨hnorm, hwt⟩ := hsettled
      { e.note with type := some typing.type, isPlace := typing.isPlace } rfl rfl
    have hnode : (e.withNote _).All (s.Vets tidy True) := all_of_below
      ⟨he.known.withNote (forall_mem_some hknown), hnorm, fun _ => hwt⟩ (below_withNote he.below)
    refine (fold_quietly _).gives.imp fun (e', errors) s1 ⟨hquiet, hfolded⟩ => ?_
    obtain ⟨d, rfl⟩ := hquiet
    refine ⟨hg.trans (hg.sound.quiet ⟨d, rfl⟩), ?_⟩
    obtain rfl | ⟨tok, type, value, htype, rfl, hfolded⟩ := hfolded
    · exact vetted_imp (fun _ => trivial) hnode
    · exact all_literal.2 ⟨forall_mem_some (hnode.self.known.type type htype),
        fun htidy => hfolded hwt.exact (hnode.mono fun _ hv => hv.normal htidy),
        fun _ => wellTyped_literal rfl rfl⟩

lemma judge_gives {f : α → Expr} {g : α → Verdict} (hg : s0.Grows s)
    (he : s.Mounts tidy (errors = 0) e)
    (hm : errors = 0 → Gives m s fun a s' =>
      s.Grows s' ∧ s'.Mounts tidy True (f a) ∧ Judges (Settles tidy s' (f a)) (g a)) :
    Gives (if 0 < errors then return (e, errors) else m >>= fun a => conclude (f a) (g a)) s
      (Analyzed tidy s0) := by
  split
  · next herrs => exact ⟨hg, he.rejected id herrs.ne'⟩
  · next herrs =>
    exact (hm (Nat.eq_zero_of_not_pos herrs)).seq fun _ _ ⟨hg', he', hverdict⟩ =>
      conclude_gives (hg.trans hg') he' hverdict

lemma normal_of_literal? {t : TypeTable} (h : e.literal? = none) :
    e.Normal t ∧ ∀ note, (e.withNote note).Normal t := by
  cases e with
  | literal => cases h
  | _ => exact ⟨trivial, fun _ => trivial⟩

lemma judge_quietly {f : α → Expr} {g : α → Verdict} (hg : s0.Grows s) (hself : e.Known s.count)
    (hbelow : Below (s.Vets tidy (errors = 0)) e) (he : e.literal? = none)
    (hf : ∀ a, (f a).literal? = none) (hm : errors = 0 → Quietly s.types m fun a =>
      (f a).Known s.count ∧ Below (s.Vets tidy True) (f a) ∧
        Judges (Suits s.types s.scopes (f a)) (g a)) :
    Gives (if 0 < errors then return (e, errors) else m >>= fun a => conclude (f a) (g a)) s
      (Analyzed tidy s0) := by
  refine judge_gives hg ⟨hself, fun _ => (normal_of_literal? he).1, hbelow⟩ fun herrs =>
    (hm herrs).gives.imp fun a s' ⟨hquiet, hself, hbelow, h⟩ => ?_
  obtain ⟨d, rfl⟩ := hquiet
  obtain ⟨hnorm, hnorms⟩ := normal_of_literal? (hf a)
  exact ⟨hg.sound.quiet ⟨d, rfl⟩, ⟨hself, fun _ => hnorm, hbelow⟩, h.imp fun _ h =>
    ⟨h.known, fun note hnote hplace => ⟨fun _ => hnorms note, h.wellTyped note hnote hplace⟩⟩⟩

/-- Analysis keeps the state sound, and what it accepts of an expression is well typed. -/
def Analyzes (tidy : Prop) (c : Context) (e : Expr) : Prop :=
  ∀ (expected : Option TypeId) (s : State), s.Sound → (∀ type ∈ expected, type < s.count) →
    e.All (s.Vets tidy False) → Gives (expr c e expected) s (Analyzed tidy s)

lemma exprs_gives (hes : ∀ e ∈ es, Analyzes tidy c e) (expected : Option TypeId) (hs : s.Sound)
    (hexp : ∀ type ∈ expected, type < s.count) (hgiven : ∀ e ∈ es, e.All (s.Vets tidy False)) :
    Gives (exprs c es expected) s fun r s' =>
      s.Grows s' ∧ ∀ e ∈ r.1, e.All (s'.Vets tidy (r.2 = 0)) := by
  induction es generalizing s with
  | nil => exact ⟨hs.refl, nofun⟩
  | cons _ _ ih =>
    rw [List.forall_mem_cons] at hes hgiven
    refine (hes.1 expected s hs hexp hgiven.1).seq fun (e', m) s1 ⟨hg1, he⟩ => ?_
    refine (ih hes.2 hg1.sound (hg1.note hexp)
      fun e he => hg1.vetted hs id (hgiven.2 e he)).seq fun (es', n) s2 ⟨hg2, hrest⟩ => ?_
    refine ⟨hg1.trans hg2, List.forall_mem_cons.2 ⟨?_, fun x hx => ?_⟩⟩
    · exact hg2.vetted hg1.sound Nat.eq_zero_of_add_eq_zero_right he
    · exact vetted_imp Nat.eq_zero_of_add_eq_zero_left (hrest x hx)

lemma operands_give (ihx : Analyzes tidy c x) (ihy : Analyzes tidy c y) (hs : s.Sound)
    (expected : Option TypeId) (hexp : ∀ type ∈ expected, type < s.count)
    (hx : x.All (s.Vets tidy False)) (hy : y.All (s.Vets tidy False)) {E : Expr → Option TypeId}
    (hE : ∀ n ≥ s.count, ∀ x' : Expr, x'.Known n → ∀ type ∈ E x', type < n) :
    Gives (expr c x expected) s fun a s1 => Gives (expr c y (E a.1)) s1 fun b s2 =>
      s.Grows s2 ∧ a.1.All (s2.Vets tidy (a.2 + b.2 = 0)) ∧ b.1.All (s2.Vets tidy (a.2 + b.2 = 0)) := by
  refine (ihx expected s hs hexp hx).imp fun a s1 ⟨hg1, ha⟩ => ?_
  refine (ihy _ s1 hg1.sound (hE _ hg1.count a.1 ha.self.known) (hg1.vetted hs id hy)).imp
    fun b s2 ⟨hg2, hb⟩ => ⟨hg1.trans hg2, ?_, ?_⟩
  · exact hg2.vetted hg1.sound Nat.eq_zero_of_add_eq_zero_right ha
  · exact vetted_imp Nat.eq_zero_of_add_eq_zero_left hb

lemma literal_analyzes {value : Literal} : Analyzes tidy c (.literal note value) := by
  intro expected s hs hexp hgiven
  obtain ⟨hknown, hnorm, -⟩ := hgiven.self
  unfold expr
  have hconclude (s1 : State) (hg : s.Grows s1) (type : TypeId) (htype : type < s1.count)
      (hoffers : tidy → ∀ note : Note, note.type = some type → (Expr.literal note value).Normal s1.types) :
      Gives (conclude (.literal note value) (.ok { type })) s1 (Analyzed tidy s) :=
    conclude_gives hg ⟨hknown.mono hg.count, fun htidy =>
      (hnorm htidy).leads hg.types hs.types hknown, nofun⟩ ⟨htype, fun note hnote hplace =>
        ⟨fun htidy => hoffers htidy note hnote, wellTyped_literal hnote hplace⟩⟩
  split
  · next type htype =>
    refine hconclude s hs.refl type (hknown type htype) fun htidy note' hnote => ?_
    cases value with
    | integer =>
      intro type' htype'
      obtain rfl := some.inj (hnote.symm.trans htype')
      exact hnorm htidy type htype
    | _ => trivial
  · exact (literalType_gives hs).seq fun type s1 ⟨hg, hlt, h⟩ => hconclude s1 hg type hlt fun _ => h

lemma name_analyzes : Analyzes tidy c (.name note text symbol) := by
  intro expected s hs hexp hgiven
  refine (nameVerdict_gives hs).seq fun (symbol', verdict) s1 ⟨hg, hverdict⟩ => ?_
  have hnode : s1.Mounts tidy True (.name note text symbol') :=
    ⟨hg.note hgiven.self.known.type, fun _ => trivial, nofun⟩
  refine conclude_gives hg hnode (hverdict.imp ?_)
  rintro typing ⟨hlt, x, type, hx, htype, hkind, hnamed⟩
  obtain rfl : symbol' = some x := hx
  refine ⟨hlt, fun note' hnote _ => ⟨fun _ => trivial, ⟨type, htype, ?_⟩,
    ⟨isSome_of_eq_some hnote, x, rfl, ScopeTree.knows_of_eq htype⟩, trivial, trivial,
    hnamed.imp (fun ⟨heq, hflag⟩ => ⟨?_, hflag⟩) fun h => ⟨_, hnote, h⟩, nofun, trivial, .inr trivial⟩⟩
  · exact (note_kind? hnote).trans (congrArg some hkind)
  · rw [hnote, htype, heq]

lemma binary_analyzes {rhs : Expr} (ihl : Analyzes tidy c lhs) (ihr : Analyzes tidy c rhs) :
    Analyzes tidy c (.binary note op lhs rhs) := by
  intro expected s hs hexp hgiven
  obtain ⟨hnode, hl, hr⟩ := all_binary.1 hgiven
  refine (operands_give ihl ihr hs none nofun hl hr (E := fun _ => none) nofun).seq
    fun (lhs', m) s1 h => h.seq fun (rhs', n) s2 ⟨hg, hl, hr⟩ => ?_
  have hself := hg.note hnode.known.type
  refine judge_quietly hg hself (below_of_parts rfl hl hr) rfl (fun _ => rfl) fun herrs => ?_
  have hlhs := accept herrs hl
  have hrhs := accept herrs hr
  exact (binaryVerdict_quietly hg.sound.types op (fits_of_all hlhs) (fits_of_all hrhs)).imp
    fun _ ⟨hwl, hwr, hverdict⟩ =>
      ⟨hself, below_of_parts rfl (hwl.vetted hlhs) (hwr.vetted hrhs), hverdict⟩

lemma unary_analyzes {op : UnaryOp} {operand : Expr} (ih : Analyzes tidy c operand) :
    Analyzes tidy c (.unary note op operand) := by
  intro expected s hs hexp hgiven
  obtain ⟨hnode, ho⟩ := all_unary.1 hgiven
  refine (ih none s hs nofun ho).seq fun (operand', n) s1 ⟨hg, ho⟩ => ?_
  have hself := hg.note hnode.known.type
  by_cases hop : op = .address
  · -- The type of an address may be new.
    subst hop
    refine judge_gives hg ⟨hself, fun _ => trivial, below_of_part rfl ho⟩ fun herrs => ?_
    have hoper := accept herrs ho
    refine (address_gives hg.sound (fits_of_all hoper)).imp
      fun (operand'', verdict) s2 ⟨hg2, heq, hverdict⟩ => ?_
    obtain rfl : operand'' = operand' := heq
    refine ⟨hg2, ⟨hg2.note hself, fun _ => trivial,
      below_of_part rfl (hg2.vetted hg.sound id hoper)⟩, hverdict.imp ?_⟩
    exact fun typing ⟨hlt, hvalue⟩ => ⟨hlt, fun note' hnote hplace => ⟨fun _ => trivial,
      .plain trivial trivial nofun trivial hnote (.inl (hplace.trans hvalue)) trivial⟩⟩
  · refine judge_quietly hg hself (below_of_part rfl ho) rfl (fun _ => rfl) fun herrs => ?_
    have hoper := accept herrs ho
    exact (unaryVerdict_quietly hg.sound.types hop (fits_of_all hoper)).imp
      fun _ ⟨hwraps, hverdict⟩ => ⟨hself, below_of_part rfl (hwraps.vetted hoper), hverdict⟩

lemma conditional_analyzes {cond no : Expr} (ihc : Analyzes tidy c cond) (ihy : Analyzes tidy c yes)
    (ihn : Analyzes tidy c no) : Analyzes tidy c (.conditional note cond yes no) := by
  intro expected s hs hexp hgiven
  obtain ⟨hnode, hc, hy, hn⟩ := all_conditional.1 hgiven
  refine (ihc none s hs (by simp) hc).seq fun r s1 h1 => ?_
  obtain ⟨condition', k⟩ := r
  obtain ⟨hg1, hc⟩ := h1
  dsimp only
  -- The branches are analyzed in both cases of the test.
  have hrest (k' : Nat) (s2 : State) (hquiet : Quiet s1 s2) (hk : k' = 0 → k = 0) :
      Gives (conditionalBranches c note condition' yes no expected k') s2 (Analyzed tidy s) := by
    have hg2 := hg1.sound.quiet hquiet
    have hgc := hg1.trans hg2
    have hexpected' (n : Nat) (hn : n ≥ s2.count) : ∀ type ∈ expected, type < n :=
      fun type htype => (hexp type htype).trans_le (hgc.count.trans hn)
    refine (operands_give ihy ihn hgc.sound expected (hexpected' _ le_rfl)
      (hgc.vetted hs id hy) (hgc.vetted hs id hn) fun n hn _ _ => hexpected' n hn).seq
      fun r s3 h => h.seq fun r' s4 h4 => ?_
    obtain ⟨yes', m⟩ := r
    obtain ⟨no', n⟩ := r'
    obtain ⟨hg3, hy, hn⟩ := h4
    have hg := hgc.trans hg3
    have hself := hg.note hnode.known.type
    have hbelow {accepted : Prop} {yes no : Expr} (hc : condition'.All (s4.Vets tidy accepted))
        (hy : yes.All (s4.Vets tidy accepted)) (hn : no.All (s4.Vets tidy accepted)) :
        Below (s4.Vets tidy accepted) (.conditional note condition' yes no) :=
      List.forall_mem_append.2 ⟨List.forall_mem_append.2 ⟨hc, hy⟩, hn⟩
    have hc : condition'.All (s4.Vets tidy (k' + m + n = 0)) :=
      (hg2.trans hg3).vetted hg1.sound (fun herr => hk (by omega)) hc
    refine judge_quietly hg hself (hbelow hc (vetted_imp (fun _ => by dsimp only; omega) hy)
      (vetted_imp (fun _ => by dsimp only; omega) hn)) rfl (fun _ => rfl) fun herrs => ?_
    have hyes := accept (by dsimp only; omega) hy
    have hno := accept (by dsimp only; omega) hn
    refine (conditionalVerdict_quietly hg.sound.types (fits_of_all hyes) (fits_of_all hno)).imp
      fun _ h => ⟨hself, hbelow (accept herrs hc) (h.1.vetted hyes) (h.2.1.vetted hno), h.2.2.imp ?_⟩
    refine fun typing hj => ⟨hj.known, fun note' hnote hplace => ?_⟩
    have hkind := (note_kind? (t := s4.types) hnote).symm
    exact .plain ⟨hj.left.kind?.trans hkind, hj.right.kind?.trans hkind⟩ trivial (by rintro _ ⟨⟩)
      ⟨hj.left.agrees hnote, hj.right.agrees hnote⟩ hnote (.inl (hplace.trans hj.place)) trivial
  split
  · exact hrest k s1 (.refl _) id
  · next hk =>
    exact (testErrors_quietly condition').gives.seq fun k' s2 h =>
      hrest k' s2 h.1 fun _ => by omega

lemma member_analyzes (ih : Analyzes tidy c object) :
    Analyzes tidy c (.member note object text deref) := by
  intro expected s hs hexp hgiven
  obtain ⟨hnode, ho⟩ := all_member.1 hgiven
  refine (ih none s hs nofun ho).seq fun (object', n) s1 ⟨hg, ho⟩ => ?_
  have hself := hg.note hnode.known.type
  refine judge_quietly hg hself (below_of_part rfl ho) rfl (fun _ => rfl) fun herrs => ?_
  have hobject := accept herrs ho
  exact (memberVerdict_quietly hg.sound.types (fits_of_all hobject) text deref).imp
    fun _ hverdict => ⟨hself, below_of_part rfl hobject, hverdict⟩

lemma qualified_analyzes : Analyzes tidy c (.qualified note scope text) := by
  intro expected s hs hexp hgiven
  refine (qualifiedConstant_gives hs).seq fun found s1 ⟨hquiet, hfound⟩ => ?_
  have hg := hs.quiet hquiet
  obtain ⟨d, rfl⟩ := hquiet
  cases found with
  | none =>
    exact ⟨hg, all_qualified.2 ⟨hgiven.self.known, hgiven.self.normal, fun h => absurd h Nat.one_ne_zero⟩⟩
  | some constant =>
    obtain ⟨type, value, rfl, hlt, hoffers⟩ := hfound constant rfl
    exact ⟨hg, all_literal.2 ⟨forall_mem_some hlt, fun _ _ h => some.inj h ▸ hoffers,
      fun _ => wellTyped_literal rfl rfl⟩⟩

lemma call_analyzes (ih : ∀ e ∈ args, Analyzes tidy c e) :
    Analyzes tidy c (.call note callee symbol args) := by
  intro expected s hs hexp hgiven
  obtain ⟨hnode, ha⟩ := all_call.1 hgiven
  refine (callTarget_gives hs).seq fun target s1 ⟨hg1, htgt⟩ => ?_
  have ha1 : ∀ e ∈ args, e.All (s1.Vets tidy False) :=
    fun e he => hg1.vetted hs id (ha e he)
  cases target with
  | none =>
    have hmounts : s1.Mounts tidy False (.call note callee symbol args) :=
      ⟨hg1.note hnode.known.type, fun _ => trivial, below_of_list rfl ha1⟩
    exact ⟨hg1, hmounts.rejected Nat.one_ne_zero Nat.one_ne_zero⟩
  | some found =>
    obtain ⟨id, signature⟩ := found
    obtain ⟨hcalls, hres, hparams⟩ := htgt _ rfl
    refine (exprs_gives ih none hg1.sound nofun ha1).seq fun (arguments', n) s2 ⟨hg2, ha⟩ => ?_
    have hg := hg1.trans hg2
    have hself := hg.note hnode.known.type
    refine judge_quietly hg hself (below_of_list rfl ha) rfl (fun _ => rfl) fun herrs => ?_
    have hargs : ∀ e ∈ arguments', e.All (s2.Vets tidy True) :=
      fun e he => accept herrs (ha e he)
    refine (callVerdict_quietly hg.sound.types (hres.trans_le hg2.count)
      (fun p hp => (hparams p hp).trans_le hg2.count) fun e he => fits_of_all (hargs e he)).imp
      fun _ ⟨hwraps, hverdict⟩ => ⟨hself, below_of_list rfl (all_vetted hwraps hargs), hverdict.imp ?_⟩
    refine fun typing ⟨hlt, hvalue⟩ => ⟨hlt, fun note' hnote hplace => ?_⟩
    have hcalls2 : s2.scopes.Calls s2.types id :=
      hcalls.mono hg2.types hg2.symbols
    exact ⟨trivial, ⟨isSome_of_eq_some hnote, hcalls2⟩, trivial, trivial, trivial, nofun, trivial,
      .inl (hplace.trans hvalue)⟩

lemma index_analyzes {base index : Expr} (ihb : Analyzes tidy c base) (ihi : Analyzes tidy c index) :
    Analyzes tidy c (.index note base index) := by
  intro expected s hs hexp hgiven
  obtain ⟨hnode, hb, hi⟩ := all_index.1 hgiven
  refine (operands_give ihb ihi hs none nofun hb hi (E := fun _ => none) nofun).seq
    fun (base', m) s1 h => h.seq fun (index', n) s2 ⟨hg, hb, hi⟩ => ?_
  have hself := hg.note hnode.known.type
  refine judge_quietly hg hself (below_of_parts rfl hb hi) rfl (fun _ => rfl) fun herrs => ?_
  exact (indexVerdict_quietly hg.sound.types).imp fun _ hverdict =>
    ⟨hself, below_of_parts rfl (accept herrs hb) (accept herrs hi), hverdict⟩

lemma collection_analyzes (ih : ∀ e ∈ elems, Analyzes tidy c e) :
    Analyzes tidy c (.collection note elems) := by
  intro expected s hs hexp hgiven
  obtain ⟨hnode, he⟩ := all_collection.1 hgiven
  refine .types ?_
  have harray : ∀ type ∈ expected.filter s.types.isArray,
      type < s.count ∧ s.types.isArray type = true := fun type htype =>
    ⟨hexp type (filter_eq_some_iff.1 htype).1, (filter_eq_some_iff.1 htype).2⟩
  refine (exprs_gives ih _ hs (fun type htype => ?_) he).seq
    fun (elements', n) s1 ⟨hg1, he⟩ => ?_
  · obtain ⟨array, -, helem⟩ := bind_eq_some_iff.1 htype
    exact hs.types.element_lt helem
  have hself := hg1.note hnode.known.type
  refine judge_gives hg1 ⟨hself, fun _ => trivial, below_of_list rfl he⟩ fun herrs => ?_
  refine (collection_gives hg1.sound (fun e hmem => accept herrs (he e hmem))
    fun type htype => ⟨(harray type htype).1.trans_le hg1.count,
      hg1.types.isArray (harray type htype).2⟩).imp
    fun (elements'', verdict) s2 ⟨hg2, he', hverdict⟩ =>
      ⟨hg2, ⟨hg2.note hself, fun _ => trivial, below_of_list rfl he'⟩, hverdict.imp ?_⟩
  exact fun typing ⟨hlt, hvalue, hnested⟩ => ⟨hlt, fun note' hnote hplace => ⟨fun _ => trivial, trivial,
    ⟨isSome_of_eq_some hnote, typing.type, hnote, hnested.isArray⟩,
    ⟨typing.type, hnote, hnested⟩, trivial, trivial, nofun, trivial, .inl (hplace.trans hvalue)⟩⟩

lemma cast_analyzes (ih : Analyzes tidy c operand) :
    Analyzes tidy c (.cast note operand target isImplicit) := by
  intro expected s hs hexp hgiven
  obtain ⟨hnode, ho⟩ := all_cast.1 hgiven
  refine (ih none s hs nofun ho).seq fun (operand', n) s1 ⟨hg, ho⟩ => ?_
  have hself : (Expr.cast note operand' target isImplicit).Known s1.count :=
    ⟨hg.note hnode.known.1, hnode.known.2.trans_le hg.count⟩
  refine judge_quietly hg hself (below_of_part rfl ho) rfl (fun _ => rfl) fun herrs => ?_
  exact (castVerdict_quietly hself.2 isImplicit).imp fun _ hverdict =>
    ⟨hself, below_of_part rfl (accept herrs ho), hverdict⟩

lemma assign_analyzes {assigned : Expr} (iht : Analyzes tidy c target)
    (iha : Analyzes tidy c assigned) : Analyzes tidy c (.assign note target assigned) := by
  intro expected s hs hexp hgiven
  obtain ⟨hnode, ht, ha⟩ := all_assign.1 hgiven
  refine (operands_give iht iha hs none nofun ht ha fun _ _ _ h => h.type).seq
    fun (target', m) s1 h => h.seq fun (assigned', n) s2 ⟨hg, ht, ha⟩ => ?_
  have hself := hg.note hnode.known.type
  refine judge_quietly hg hself (below_of_parts rfl ht ha) rfl (fun _ => rfl) fun herrs => ?_
  have htgt := accept herrs ht
  have hassigned := accept herrs ha
  exact (assignVerdict_quietly hg.sound.types (fits_of_all htgt) (fits_of_all hassigned)).imp
    fun _ ⟨hwraps, hverdict⟩ => ⟨hself, below_of_parts rfl htgt (hwraps.vetted hassigned), hverdict⟩

lemma update_analyzes {assigned : Expr} (iht : Analyzes tidy c target)
    (iha : Analyzes tidy c assigned) : Analyzes tidy c (.update note op target assigned) := by
  intro expected s hs hexp hgiven
  obtain ⟨hnode, ht, ha⟩ := all_update.1 hgiven
  refine (operands_give iht iha hs none nofun ht ha (E := fun _ => none) nofun).seq
    fun (target', m) s1 h => h.seq fun (assigned', n) s2 ⟨hg, ht, ha⟩ => ?_
  have hself := hg.note hnode.known.type
  refine judge_quietly hg hself (below_of_parts rfl ht ha) rfl (fun _ => rfl) fun herrs => ?_
  have htgt := accept herrs ht
  have hassigned := accept herrs ha
  exact (updateVerdict_quietly hg.sound.types (fits_of_all htgt) op (fits_of_all hassigned)).imp
    fun _ ⟨hwraps, hverdict⟩ => ⟨hself, below_of_parts rfl htgt (hwraps.vetted hassigned), hverdict⟩

lemma sizeOf_analyzes : Analyzes tidy c (.sizeOf note type) := by
  intro expected s hs hexp hgiven
  obtain ⟨hlt, hshape⟩ := hs.types.builtin (.unsigned .w64)
  exact ⟨hs.refl, all_literal.2 ⟨forall_mem_some hlt, fun _ _ h => some.inj h ▸
    .inl (ranges_of_shape hshape nofun fun _ hs => some.inj hs ▸ Scalar.holds_word ..),
    fun _ => wellTyped_literal rfl rfl⟩⟩

lemma expr_analyzes (c : Context) (e : Expr) : Analyzes tidy c e := by
  induction e using Expr.induction with
  | literal => exact literal_analyzes
  | name => exact name_analyzes
  | binary _ _ _ _ ihl ihr => exact binary_analyzes ihl ihr
  | unary _ _ _ ih => exact unary_analyzes ih
  | conditional _ _ _ _ ihc ihy ihn => exact conditional_analyzes ihc ihy ihn
  | member _ _ _ _ ih => exact member_analyzes ih
  | qualified => exact qualified_analyzes
  | call _ _ _ _ ih => exact call_analyzes ih
  | index _ _ _ ihb ihi => exact index_analyzes ihb ihi
  | collection _ _ ih => exact collection_analyzes ih
  | cast _ _ _ _ ih => exact cast_analyzes ih
  | assign _ _ _ iht iha => exact assign_analyzes iht iha
  | update _ _ _ _ iht iha => exact update_analyzes iht iha
  | declare => exact fun _ _ _ _ hgiven => hgiven.self.known.elim
  | sizeOf => exact sizeOf_analyzes

end Analysis

end CompilerCore
