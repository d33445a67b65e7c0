import CompilerCore.Proofs.Analysis.Reports
import CompilerCore.Proofs.Analysis.Typing

/-!
# Accepted statements are well typed

A statement is well typed when its expressions are and the values that it returns have the kind of
the result.  Declarations stand on their own: they are no parts of other expressions.  A declaration may
give its variable a type, so symbols without a type may get one; the others keep theirs.
-/

namespace CompilerCore

open Option

namespace Stmt

/-- A statement all of whose types are among the first `n`, and which declares symbols that exist.
Its switches have no labels yet. -/
def Known (n symbols : Nat) : Stmt → Prop
  | expr _ (.declare note x initializer) => x < symbols ∧ (∀ type ∈ note.type, type < n) ∧
    ∀ e ∈ initializer, e.All (Expr.Known n)
  | expr _ e | branch _ e _ _ | whileLoop _ e _ | doLoop _ _ e | gotoAddress _ e | caseLabel _ e
  | assertion _ e _ => e.All (Expr.Known n)
  | switch _ e _ own => own = none ∧ e.All (Expr.Known n)
  | forLoop _ _ condition step _ =>
    (∀ e ∈ condition, e.All (Expr.Known n)) ∧ ∀ e ∈ step, e.All (Expr.Known n)
  | ret _ value => ∀ e ∈ value, e.All (Expr.Known n)
  | block .. | seq .. | breakLoop _ | continueLoop _ | goto .. | label .. | defaultLabel _ | asm ..
  | cleanup .. | empty _ => True

instance decidableKnown (n symbols : Nat) (s : Stmt) : Decidable (s.Known n symbols) := by
  unfold Known
  split <;> infer_instance

/-- All nodes of the expressions of a statement have a property, and the values that it returns have
one more. -/
def Holds (P R : Expr → Prop) : Stmt → Prop
  | expr _ e | branch _ e _ _ | whileLoop _ e _ | doLoop _ _ e | gotoAddress _ e | switch _ e _ _
  | caseLabel _ e | assertion _ e _ => e.All P
  | forLoop _ _ condition step _ => (∀ e ∈ condition, e.All P) ∧ ∀ e ∈ step, e.All P
  | ret _ value => ∀ e ∈ value, e.All P ∧ R e
  | block .. | seq .. | breakLoop _ | continueLoop _ | goto .. | label .. | defaultLabel _ | asm ..
  | cleanup .. | empty _ => True

variable {P P' R R' : Expr → Prop} {s : Stmt}

lemma Holds.imp (hP : ∀ e : Expr, e.All P → e.All P') (hR : ∀ e : Expr, e.All P → R e → R' e)
    (h : s.Holds P R) : s.Holds P' R' := by
  cases s with
  | forLoop => exact ⟨fun e he => hP e (h.1 e he), fun e he => hP e (h.2 e he)⟩
  | ret => exact fun e he => ⟨hP e (h e he).1, hR e (h e he).1 (h e he).2⟩
  | block | seq | breakLoop | continueLoop | goto | label | defaultLabel | asm | cleanup | empty =>
    trivial
  | _ => exact hP _ h

lemma Holds.mono (hP : ∀ e, P e → P' e) (hR : ∀ e, R e → R' e) (h : s.Holds P R) : s.Holds P' R' :=
  h.imp (fun _ => Expr.All.mono hP) fun e _ => hR e

/-- As `Holds`, of a statement whose switches have no labels yet and whose declarations are taken apart
by `D`. -/
def Carries (P : Expr → Prop) (D : Note → SymbolId → Option Expr → Prop) (R : Expr → Prop) :
    Stmt → Prop
  | expr _ (.declare note x initializer) => D note x initializer
  | switch _ e _ own => own = none ∧ e.All P
  | s => s.Holds P R

lemma Carries.imp
    (hP : ∀ e : Expr, e.All P → e.All P') (hD : ∀ note x i, D note x i → D' note x i)
    (hR : ∀ e : Expr, e.All P → R e → R' e) (h : s.Carries P D R) : s.Carries P' D' R' := by
  cases s with
  | expr _ e =>
    cases e with
    | declare => exact hD _ _ _ h
    | _ => exact hP _ h
  | switch => exact ⟨h.1, hP _ h.2⟩
  | _ =>
    unfold Carries at h ⊢
    exact h.imp hP hR

lemma Carries.holds (hP : ∀ e, P e → P' e)
    (hD : ∀ note x i, D note x i → (Expr.declare note x i).All P') (hR : ∀ e, R e → R' e)
    (h : s.Carries P D R) : s.Holds P' R' := by
  have h' := h.imp (fun _ => Expr.All.mono hP) hD fun e _ => hR e
  cases s with
  | expr _ e => cases e <;> exact h'
  | switch => exact h'.2
  | _ => exact h'

lemma Known.carries (h : s.Known n symbols)
    (hP : tidy → s.Holds P R) :
    s.Carries (fun e => e.Known n ∧ (tidy → P e)) (fun note x i => x < symbols ∧
      (∀ type ∈ note.type, type < n) ∧ ∀ e ∈ i, e.All fun e => e.Known n ∧ (tidy → P e))
      fun _ => True := by
  have hboth {e : Expr} (he : e.All (Expr.Known n)) (hP : tidy → e.All P) :
      e.All fun e => e.Known n ∧ (tidy → P e) := fun m hm => ⟨he m hm, fun htidy => hP htidy m hm⟩
  cases s with
  | expr _ e =>
    cases e with
    | declare =>
      exact ⟨h.1, h.2.1, fun e he => hboth (h.2.2 e he) fun ht => (Expr.all_declare.1 (hP ht)).2 e he⟩
    | _ => exact hboth h hP
  | switch => exact ⟨h.1, hboth h.2 hP⟩
  | forLoop =>
    exact ⟨fun e he => hboth (h.1 e he) fun ht => (hP ht).1 e he,
      fun e he => hboth (h.2 e he) fun ht => (hP ht).2 e he⟩
  | ret => exact fun e he => ⟨hboth (h e he) fun ht => (hP ht e he).1, trivial⟩
  | block | seq | breakLoop | continueLoop | goto | label | defaultLabel | asm | cleanup | empty =>
    trivial
  | _ => exact hboth h hP

lemma forall_optionNodes : (∀ n ∈ optionNodes e, P n) ↔ ∀ a ∈ e, a.All P := by
  cases e <;> simp [optionNodes, Expr.All]

lemma forall_exprNodesOfList :
    (∀ n ∈ exprNodesOfList ss, P n) ↔ ∀ s ∈ ss, ∀ n ∈ s.exprNodes, P n := by
  induction ss with
  | nil => simp [exprNodesOfList]
  | cons _ _ ih => simp [exprNodesOfList, or_imp, forall_and, ih]

lemma forall_exprNodes : (∀ e ∈ s.exprNodes, P e) ↔ s.Holds P (fun _ => True) ∧
      ∀ part ∈ s.parts, ∀ e ∈ part.exprNodes, P e := by
  cases s with
  | branch _ _ _ no =>
    cases no <;> simp [exprNodes, Holds, parts, or_imp, forall_and, Expr.All]
  | forLoop _ first =>
    cases first <;>
      simp [exprNodes, Holds, parts, or_imp, forall_and, forall_optionNodes, and_assoc, and_left_comm]
  | _ =>
    simp [exprNodes, Holds, parts, or_imp, forall_and, forall_optionNodes, forall_exprNodesOfList,
      Expr.All]

/-- A property of all nodes in a statement is one of the expressions of all statements in it. -/
lemma all_holds_iff : s.All (Holds P fun _ => True) ↔ ∀ e ∈ s.exprNodes, P e := by
  induction s using parts_induction with
  | step s ih =>
    rw [all_iff, forall_exprNodes]
    exact and_congr_right fun _ => forall₂_congr ih

lemma All.exprNodes (h : s.All (Holds P R)) : ∀ e ∈ s.exprNodes, P e :=
  all_holds_iff.1 (h.mono fun _ => .mono (fun _ => id) fun _ _ => trivial)

/-- The expressions of a statement are coherent, and what it returns has the kind of the result. -/
def Coherent (t : TypeTable) (scopes : ScopeTree) (result : TypeId) : Stmt → Prop :=
  Holds (Expr.Coherent t scopes) fun e => e.kind? t = some (t.kind result)

/-- The expressions of a statement are well typed, and what it returns has the kind of the
result. -/
def WellTyped (t : TypeTable) (scopes : ScopeTree) (result : TypeId) : Stmt → Prop :=
  Holds (Expr.WellTyped t scopes) fun e => e.kind? t = some (t.kind result)

end Stmt

namespace Analysis

open CompilerCore.Expr

/-- What analysis has made of a declaration up to a state. -/
structure State.Installs (s : State) (tidy accepted : Prop) (note : Note) (x : SymbolId)
    (initializer : Option Expr) : Prop where
  symbol : x < s.scopes.symbols.size
  known : ∀ type ∈ note.type, type < s.count
  parts : ∀ e ∈ initializer, e.All (s.Vets tidy accepted)
  wellTyped : accepted → (Expr.declare note x initializer).WellTyped s.types s.scopes

/-- What analysis has made of a statement up to a state. -/
abbrev State.Bears (s : State) (tidy accepted : Prop) (result : TypeId) : Stmt → Prop :=
  Stmt.Carries (s.Vets tidy accepted) (s.Installs tidy accepted) fun e =>
    accepted → e.kind? s.types = some (s.types.kind result)

/-- What the check of a statement makes of the statement and the state. -/
def Checked (tidy : Prop) (result : TypeId) (s : State) (r : Stmt × Nat) (s' : State) : Prop :=
  s.Extends s' ∧ r.1.All (s'.Bears tidy (r.2 = 0) result)

variable {tidy accepted accepted' : Prop} {n body : Stmt} {x : SymbolId} {e value test : Expr}

namespace State

variable {s s' : State}

lemma Sound.extends (h : s.Sound) : s.Extends s := h.refl.toExtends

lemma Extends.within (h : s.Extends s') (cleanups : Nat)
    (hw : ∀ o ∈ w, ∀ type ∈ o.valueType, type < s'.count) :
    s.Extends { s' with switch := w, cleanups } :=
  ⟨⟨h.sound.types, h.sound.symbols, h.sound.entries, hw⟩, h.types, h.symbols, h.flags, h.size⟩

lemma Extends.installs (h : s.Extends s') (hs : s.Sound) (haccepted : accepted' → accepted)
    {note : Note} (hd : s.Installs tidy accepted note x initializer) :
    s'.Installs tidy accepted' note x initializer where
  symbol := h.size ▸ hd.symbol
  known type htype := (hd.known type htype).trans_le h.count
  parts e he := h.vetted hs haccepted (hd.parts e he)
  wellTyped ha := by
    obtain ⟨⟨⟨type, htype, hkind⟩, hvalue⟩, hresolved, hlayered, -, -, -, -, hplace⟩ :=
      hd.wellTyped (haccepted ha)
    have hnode := Note.kind?_of_leads h.types hd.known
    refine ⟨⟨⟨type, h.symbols x type htype, ?_⟩, fun e he => ?_⟩,
      hresolved.leads h.types h.symbols, hlayered.leads h.types, trivial, trivial, nofun, trivial, hplace⟩
    · rw [hnode, hkind, h.types.kind (hs.symbols x type htype)]
    · rw [hnode, kind?_of_leads h.types ((hd.parts e he).mono fun _ hv => hv.known)]
      exact hvalue e he

lemma Extends.bears (h : s.Extends s') (hs : s.Sound) (hresult : result < s.count)
    (haccepted : accepted' → accepted) (hn : n.All (s.Bears tidy accepted result)) :
    n.All (s'.Bears tidy accepted' result) := by
  refine hn.mono fun _ => Stmt.Carries.imp (fun _ => h.vetted hs haccepted)
    (fun _ _ _ => h.installs hs haccepted) fun e he hkind ha => ?_
  rw [kind?_of_leads h.types (he.mono fun _ hv => hv.known), h.types.kind hresult]
  exact hkind (haccepted ha)

lemma bears_imp (h : accepted' → accepted)
    (hn : n.All (s.Bears tidy accepted result)) : n.All (s.Bears tidy accepted' result) :=
  hn.mono fun _ => Stmt.Carries.imp (fun _ => vetted_imp h)
    (fun _ _ _ hd => ⟨hd.symbol, hd.known, fun e he => vetted_imp h (hd.parts e he),
      fun ha => hd.wellTyped (h ha)⟩) fun _ _ hkind ha => hkind (h ha)

end State

/-! ## Declarations -/

variable {s : State} {c : Context} {token : Token}

/-- What holds of a declaration after its analysis. -/
def Declared (tidy : Prop) (s : State) (x : SymbolId) (r : Expr × Nat) (s' : State) : Prop :=
  s.Extends s' ∧ ∃ note initializer, r.1 = .declare note x initializer ∧
    s'.Installs tidy (r.2 = 0) note x initializer

lemma conclude_declared (hext : s0.Extends s) {note : Note} (hx : x < s0.scopes.symbols.size)
    (hnote : ∀ type ∈ note.type, type < s.count)
    (hparts : ∀ e ∈ initializer, e.All (s.Vets tidy accepted))
    (hverdict : Judges (fun typing => accepted ∧ typing.isPlace = false ∧
      (s.scopes.symbol x).type = some typing.type ∧
      ∀ e ∈ initializer, e.kind? s.types = some (s.types.kind typing.type) ∧
        s.types.Nested e.depth typing.type) verdict) :
    Gives (conclude (.declare note x initializer) verdict) s (Declared tidy s0 x) := by
  have hx : x < s.scopes.symbols.size := hext.size ▸ hx
  cases verdict with
  | error =>
    exact ⟨hext, note, initializer, rfl, hx, hnote,
      fun e he => vetted_imp (fun h => absurd h hverdict) (hparts e he), fun h => absurd h hverdict⟩
  | ok typing =>
    obtain ⟨haccepted, hplace, htype, hinitializer⟩ := hverdict
    exact ⟨hext, { note with type := some typing.type, isPlace := typing.isPlace }, initializer, rfl, hx,
      forall_mem_some (hext.sound.symbols x typing.type htype),
      fun e he => vetted_imp (fun _ => haccepted) (hparts e he), fun _ =>
        ⟨⟨⟨typing.type, htype, rfl⟩, fun e he => (hinitializer e he).1⟩,
          ⟨rfl, ScopeTree.knows_of_eq htype⟩, fun e he => ⟨typing.type, rfl, (hinitializer e he).2⟩,
          trivial, trivial, nofun, trivial, .inl hplace⟩⟩

lemma State.Sound.setType (hs : s.Sound) (htype : type < s.count)
    (hnone : (s.scopes.symbol x).type = none) :
    s.Extends { s with
      scopes := s.scopes.modifySymbol x fun symbol => { symbol with type := some type } } where
  sound :=
    { types := hs.types
      symbols := fun y found hfound => by
        by_cases hyx : y = x
        · subst hyx
          by_cases hy : y < s.scopes.symbols.size
          · rw [ScopeTree.type_setType hy] at hfound
            obtain rfl : type = found := some.inj hfound
            exact htype
          · unfold ScopeTree.symbol ScopeTree.modifySymbol at hfound
            rw [Array.getD_eq_getD_getElem?,
              Array.getElem?_eq_none (by simpa using Nat.le_of_not_lt hy)] at hfound
            cases hfound
        · rw [ScopeTree.type_modifySymbol_of_ne hyx] at hfound
          exact hs.symbols y found hfound
      entries := hs.entries
      switch := hs.switch }
  types := .refl _
  symbols y found hfound := by
    have hyx : y ≠ x := by
      rintro rfl
      rw [hnone] at hfound
      cases hfound
    rw [ScopeTree.type_modifySymbol_of_ne hyx, hfound]
  flags y := ScopeTree.field_modifySymbol Symbol.isImmutable s.scopes x y fun _ => rfl
  size := Array.size_modify

lemma declare_gives (hs : s.Sound) {note : Note}
    (hd : s.Installs tidy False note x initializer) :
    Gives (expr c (.declare note x initializer) expected) s (Declared tidy s x) := by
  obtain ⟨hx, hnote, hparts, -⟩ := hd
  cases initializer with
  | none =>
    have hnone (s : State) : ∀ e ∈ (none : Option Expr), e.All (s.Vets tidy True) := nofun
    refine .get ?_
    dsimp only
    split
    · next type htype =>
      exact conclude_declared hs.extends hx hnote (hnone s) ⟨trivial, rfl, htype, nofun⟩
    · refine .seq (Q := fun verdict s' => Quiet s s' ∧ verdict = .error 1) ⟨⟨_, rfl⟩, rfl⟩
        fun verdict s1 ⟨hquiet, hverdict⟩ => ?_
      subst hverdict
      have hg := hs.quiet hquiet
      exact conclude_declared hg.toExtends hx (hg.note hnote) (hnone s1) Nat.one_ne_zero
  | some initializer =>
    have hinit := hparts initializer rfl
    refine .get ?_
    split
    · next type htype =>
      have hlt : type < s.count := hs.symbols x type htype
      refine (expr_analyzes c initializer (some type) s hs (forall_mem_some hlt) hinit).seq
        fun (value, n) s1 ⟨hg, hv⟩ => ?_
      have hnote' := hg.note hnote
      dsimp only
      split
      · next herr =>
        exact ⟨hg.toExtends, note, some value, rfl, hg.size ▸ hx, hnote',
          fun e he => Option.some.inj he ▸ hv, fun h => absurd h herr.ne'⟩
      · next herr =>
        have hvalue := accept (Nat.eq_zero_of_not_pos herr) hv
        refine (convert_quietly hg.sound.types (hlt.trans_le hg.count) (fits_of_all hvalue)).gives.seq
          fun (value', n') s2 ⟨hquiet, hwraps, hmeets⟩ => ?_
        have hg2 := hg.trans (hg.sound.quiet hquiet)
        obtain ⟨d, rfl⟩ := hquiet
        have hvalue' := hwraps.vetted hvalue
        refine conclude_declared hg2.toExtends hx hnote' (fun e he => Option.some.inj he ▸ hvalue') ?_
        split
        · exact Nat.one_ne_zero
        · refine ⟨trivial, rfl, (hg.same x).trans htype, fun e he => ?_⟩
          obtain rfl : value' = e := Option.some.inj he
          have hmeets := hmeets (by omega)
          exact ⟨hmeets.kind?, hmeets.nested (fits_of_all hvalue').wellTyped.layered⟩
    · next hnone =>
      refine (expr_analyzes c initializer none s hs nofun hinit).seq fun (value, n) s1 ⟨hg, hv⟩ => ?_
      have hnote' := hg.note hnote
      dsimp only
      split
      · have hmax : max n 1 ≠ 0 := by omega
        exact ⟨hg.toExtends, note, some value, rfl, hg.size ▸ hx, hnote', fun e he => Option.some.inj he ▸
          vetted_imp (fun h => absurd h hmax) hv, fun h => absurd h hmax⟩
      · next found hfound =>
        refine .types ?_
        have hlt := hg.sound.types.unqualified_lt (hv.self.known.type found hfound)
        have hnone1 : (s1.scopes.symbol x).type = none := (hg.same x).trans hnone
        have hset := hg.sound.setType hlt hnone1
        refine .seq (Q := fun _ s' => s' = { s1 with
          scopes := s1.scopes.modifySymbol x fun symbol =>
            { symbol with type := some (s1.types.unqualified found) } }) rfl fun _ s2 hs2 => ?_
        subst hs2
        have hparts2 (e : Expr) (he : e ∈ some value) : e.All (State.Vets _ tidy (n = 0)) :=
          Option.some.inj he ▸ hset.vetted hg.sound id hv
        refine conclude_declared (hg.toExtends.trans hset) hx hnote' hparts2 ?_
        split
        · next herr => exact herr.ne'
        · next herr =>
          have hzero := Nat.eq_zero_of_not_pos herr
          refine ⟨hzero, rfl, ScopeTree.type_setType (hg.size ▸ hx) _, fun e he => ?_⟩
          obtain rfl : value = e := Option.some.inj he
          have hmeets : Meets s1.types (s1.types.unqualified found) value :=
            ⟨found, hfound, TypeTable.stands_of_shape (hg.sound.types.shape_unqualified found)⟩
          exact ⟨hmeets.kind?, hmeets.nested (fits_of_all (accept hzero hv)).wellTyped.layered⟩

/-! ## Parts of statements -/

section

variable (hs : s.Sound)
include hs

lemma condition_gives (he : e.All (s.Vets tidy False)) :
    Gives (condition c e) s (Analyzed tidy s) := by
  refine (expr_analyzes c e none s hs nofun he).seq fun (e', n) s1 ⟨hg, he⟩ => ?_
  dsimp only
  split
  · exact ⟨hg, he⟩
  · next hn =>
    refine (testErrors_quietly e').gives.seq fun n' s2 ⟨hquiet, _⟩ => ?_
    have hg2 := hg.trans (hg.sound.quiet hquiet)
    obtain ⟨d, rfl⟩ := hquiet
    exact ⟨hg2, vetted_imp (fun _ => Nat.eq_zero_of_not_pos hn) he⟩

lemma optionWith_gives (hf : ∀ e, e.All (s.Vets tidy False) → Gives (f e) s (Analyzed tidy s))
    (ho : ∀ e ∈ o, e.All (s.Vets tidy False)) : Gives (optionWith f o) s fun r s' =>
      s.Grows s' ∧ ∀ e ∈ r.1, e.All (s'.Vets tidy (r.2 = 0)) := by
  cases o with
  | none => exact ⟨hs.refl, nofun⟩
  | some e =>
    exact (hf e (ho e rfl)).seq fun (e', n) s1 ⟨hg, he⟩ => ⟨hg, fun x hx => some.inj hx ▸ he⟩

lemma returned_gives (hresult : c.returnType < s.count) {value : Option Expr}
    (hvalue : ∀ e ∈ value, e.All (s.Vets tidy False)) :
    Gives (returned c token value) s fun r s' => s.Grows s' ∧
      ∀ e ∈ r.1, e.All (s'.Vets tidy (r.2 = 0)) ∧
        (r.2 = 0 → e.kind? s'.types = some (s'.types.kind c.returnType)) := by
  cases value with
  | none =>
    refine .types ?_
    split
    · exact ⟨hs.refl, nofun⟩
    · exact ⟨hs.quiet ⟨_, rfl⟩, nofun⟩
  | some value =>
    refine (expr_analyzes c value (some c.returnType) s hs (forall_mem_some hresult)
      (hvalue value rfl)).seq fun (value', n) s1 ⟨hg, hv⟩ => ?_
    have hrejected (errors : Nat) (herr : errors ≠ 0) : ∀ e ∈ some value',
        e.All (s1.Vets tidy (errors = 0)) ∧
          (errors = 0 → e.kind? s1.types = some (s1.types.kind c.returnType)) :=
      fun e he => ⟨some.inj he ▸ vetted_imp (fun h => absurd h herr) hv, fun h => absurd h herr⟩
    dsimp only
    split
    · next herr => exact ⟨hg, hrejected n herr.ne'⟩
    · next herr =>
      have hv := accept (Nat.eq_zero_of_not_pos herr) hv
      refine .types ?_
      split
      · exact ⟨hg.trans (hg.sound.quiet ⟨_, rfl⟩), hrejected 1 Nat.one_ne_zero⟩
      · refine (convert_quietly hg.sound.types (hresult.trans_le hg.count) (fits_of_all hv)).gives.seq
          fun (value'', n') s2 ⟨hquiet, hwraps, hmeets⟩ => ?_
        have hg2 := hg.trans (hg.sound.quiet hquiet)
        obtain ⟨d, rfl⟩ := hquiet
        refine ⟨hg2, fun e he => ?_⟩
        obtain rfl : value'' = e := some.inj he
        exact ⟨vetted_imp (fun _ => trivial) (hwraps.vetted hv), fun hn => (hmeets hn).kind?⟩

lemma State.Sound.setSwitch (hw : ∀ o ∈ w, ∀ type ∈ o.valueType, type < s.count) :
    s.Grows { s with switch := w } :=
  ⟨hs.extends.within s.cleanups hw, fun _ => rfl⟩

lemma recordCase_gives {constant : Int64} (hw : s.switch = some w) :
    Gives (recordCase token constant w) s fun _ s' => s.Grows s' := by
  unfold recordCase
  split
  · exact hs.quiet ⟨_, rfl⟩
  · exact hs.setSwitch fun _ ho => some.inj ho ▸ hs.switch w hw

lemma caseValue_gives (hvalue : value.All (s.Vets tidy False)) :
    Gives (caseValue c token value) s (Analyzed tidy s) := by
  have hone (s : State) {e : Expr} {accepted : Prop} (he : e.All (s.Vets tidy accepted)) :
      e.All (s.Vets tidy (1 = 0)) := vetted_imp (fun h => absurd h Nat.one_ne_zero) he
  refine .get ?_
  split
  · exact ⟨hs.quiet ⟨_, rfl⟩, hone s hvalue⟩
  · next w hw =>
    refine .bind fun (value', n) s1 hrun => ?_
    obtain ⟨hg, hv⟩ := (expr_analyzes c value none s hs nofun hvalue).run hrun
    have hswitch : s1.switch = some w := ((expr_reports value none).stays hrun).switch.trans hw
    dsimp only
    split
    · exact ⟨hg, hv⟩
    · next herr =>
      have hv := accept (Nat.eq_zero_of_not_pos herr) hv
      split
      · exact ⟨hg, hone s1 hv⟩
      · next type htype =>
        split
        · exact ⟨hg.trans (hg.sound.quiet ⟨_, rfl⟩), hone s1 hv⟩
        · refine (convert_quietly hg.sound.types (hg.sound.switch w hswitch type htype)
            (fits_of_all hv)).gives.seq fun (value'', n') s2 ⟨hquiet, hwraps, _⟩ => ?_
          have hg2 := hg.trans (hg.sound.quiet hquiet)
          obtain ⟨d, rfl⟩ := hquiet
          have hv2 := hwraps.vetted hv
          split
          · exact ⟨hg2, vetted_imp (fun _ => trivial) hv2⟩
          · split
            · exact ⟨hg2.trans (hg2.sound.quiet ⟨_, rfl⟩), hone s1 hv2⟩
            · next constant _ =>
              exact (recordCase_gives hg2.sound hswitch).seq fun n'' s3 hg3 =>
                ⟨hg2.trans hg3, hg3.vetted hg2.sound (fun _ => trivial) hv2⟩

lemma defaultErrors_gives : Gives (defaultErrors token) s fun _ s' => s.Grows s' := by
  refine .get ?_
  split
  · exact hs.quiet ⟨_, rfl⟩
  · next w hw =>
    split
    · exact hs.quiet ⟨_, rfl⟩
    · exact hs.setSwitch fun _ ho => some.inj ho ▸ hs.switch w hw

lemma asmPart_gives : Gives (asmPart c token asm piece) s fun _ s' => s.Grows s' := by
  cases piece with
  | text => exact hs.refl
  | identifier =>
    refine .seq (Q := fun _ s' => s' = s) rfl fun found s0 hs0 => ?_
    subst hs0
    cases found with
    | some id => exact hs.markReferenced id
    | none =>
      dsimp only
      split
      · exact hs.refl
      · exact hs.quiet ⟨_, rfl⟩
  | register =>
    unfold asmPart
    dsimp only
    split
    · exact hs.refl
    · exact hs.quiet ⟨_, rfl⟩

lemma asmParts_gives : Gives (asmParts c token asm pieces) s fun _ s' => s.Grows s' := by
  induction pieces generalizing s with
  | nil => exact hs.refl
  | cons piece _ ih =>
    refine (asmPart_gives hs).seq fun part s1 hg1 => (ih hg1.sound).seq
      fun (parts, n) s2 hg2 => ?_
    dsimp only
    split
    · exact hg1.trans hg2
    · exact hg1.trans hg2

lemma inlineAsm_gives (asm : InlineAsm) :
    Gives (inlineAsm c token asm) s fun _ s' => s.Grows s' := by
  unfold inlineAsm
  split
  · exact hs.quiet ⟨_, rfl⟩
  · exact (asmParts_gives hs).seq fun (_, _) s1 hg => hg

end

/-! ## Statements -/

/-- Analysis keeps the state sound, and what it accepts of a statement is well typed. -/
def Checks (tidy : Prop) (n : Stmt) : Prop :=
  ∀ (c : Context) (s : State), s.Sound → c.returnType < s.count →
    n.All (s.Bears tidy False c.returnType) → Gives (stmt c n) s (Checked tidy c.returnType s)

lemma bears_expr (h : e.All (s.Vets tidy accepted)) :
    (Stmt.expr token e).All (s.Bears tidy accepted result) := by
  cases e with
  | declare => exact h.self.known.elim
  | _ => exact Stmt.all_expr.2 h

lemma expr_checks : Checks tidy (.expr token e) := by
  intro c s hs hresult hgiven
  have hgiven := Stmt.all_expr.1 hgiven
  by_cases hdeclare : ∃ note x initializer, e = .declare note x initializer
  · obtain ⟨note, x, initializer, rfl⟩ := hdeclare
    refine (declare_gives hs hgiven).seq
      fun (e', n) s1 ⟨hext, note', initializer', heq, hd⟩ => ?_
    obtain rfl : e' = .declare note' x initializer' := heq
    exact ⟨hext, Stmt.all_expr.2 hd⟩
  · have he : e.All (s.Vets tidy False) := by
      cases e with
      | declare => exact absurd ⟨_, _, _, rfl⟩ hdeclare
      | _ => exact hgiven
    exact (expr_analyzes c e none s hs nofun he).seq fun (e', n) s1 ⟨hg, he⟩ =>
      ⟨hg.toExtends, bears_expr he⟩

lemma stmts_gives (hss : ∀ n ∈ ss, Checks tidy n) (c : Context) (hs : s.Sound)
    (hresult : c.returnType < s.count) (hgiven : ∀ n ∈ ss, n.All (s.Bears tidy False c.returnType)) :
    Gives (stmts c ss) s fun r s' =>
      s.Extends s' ∧ ∀ n ∈ r.1, n.All (s'.Bears tidy (r.2 = 0) c.returnType) := by
  induction ss generalizing s with
  | nil => exact ⟨hs.extends, nofun⟩
  | cons _ _ ih =>
    rw [List.forall_mem_cons] at hss hgiven
    refine (hss.1 c s hs hresult hgiven.1).seq fun (n', k) s1 ⟨hext, hn⟩ => ?_
    have hresult1 := hresult.trans_le hext.count
    refine (ih hss.2 hext.sound hresult1 fun n hn => hext.bears hs hresult id (hgiven.2 n hn)).seq
      fun (ss', k') s2 ⟨hext', hrest⟩ => ⟨hext.trans hext', List.forall_mem_cons.2 ⟨?_, fun m hm => ?_⟩⟩
    · exact hext'.bears hext.sound hresult1 Nat.eq_zero_of_add_eq_zero_right hn
    · exact State.bears_imp Nat.eq_zero_of_add_eq_zero_left (hrest m hm)

lemma block_checks {body : List Stmt} (ih : ∀ n ∈ body, Checks tidy n) :
    Checks tidy (.block token scope body) := fun c _ hs hresult hgiven =>
  (stmts_gives ih { c with scope } hs hresult (Stmt.all_block.1 hgiven).2).seq
    fun (_, _) _ ⟨hext, hbody⟩ => ⟨hext, Stmt.all_block.2 ⟨trivial, hbody⟩⟩

lemma seq_checks {body : List Stmt} (ih : ∀ n ∈ body, Checks tidy n) :
    Checks tidy (.seq token body) := fun c _ hs hresult hgiven =>
  (stmts_gives ih c hs hresult (Stmt.all_seq.1 hgiven).2).seq
    fun (_, _) _ ⟨hext, hbody⟩ => ⟨hext, Stmt.all_seq.2 ⟨trivial, hbody⟩⟩

lemma branch_checks (ihy : Checks tidy yes)
    (ihn : ∀ n ∈ no, Checks tidy n) : Checks tidy (.branch token test yes no) := by
  intro c s hs hresult hgiven
  obtain ⟨htest, hyes, hno⟩ := Stmt.all_branch.1 hgiven
  cases no with
  | none =>
    refine (condition_gives hs htest).seq fun (test', k) s1 ⟨hg, ht⟩ => ?_
    refine (ihy c s1 hg.sound (hresult.trans_le hg.count) (hg.bears hs hresult id hyes)).seq
      fun (yes', m) s2 ⟨hext, hy⟩ => ⟨hg.toExtends.trans hext, Stmt.all_branch.2 ⟨?_, ?_, nofun⟩⟩
    · exact hext.vetted hg.sound Nat.eq_zero_of_add_eq_zero_right ht
    · exact State.bears_imp Nat.eq_zero_of_add_eq_zero_left hy
  | some no =>
    refine (condition_gives hs htest).seq fun (test', k) s1 ⟨hg, ht⟩ => ?_
    have hresult1 := hresult.trans_le hg.count
    refine (ihy c s1 hg.sound hresult1 (hg.bears hs hresult id hyes)).seq
      fun (yes', m) s2 ⟨hext, hy⟩ => ?_
    have hresult2 := hresult1.trans_le hext.count
    refine (ihn no rfl c s2 hext.sound hresult2
      ((hg.toExtends.trans hext).bears hs hresult id (hno no rfl))).seq
      fun (no', n) s3 ⟨hext', hn⟩ => ?_
    have hext1 := hext.trans hext'
    have herr (h : k + m + n = 0) : k = 0 ∧ m = 0 ∧ n = 0 := by omega
    refine ⟨hg.toExtends.trans hext1, Stmt.all_branch.2 ⟨?_, ?_, fun x hx => ?_⟩⟩
    · exact hext1.vetted hg.sound (fun h => (herr h).1) ht
    · exact hext'.bears hext.sound hresult2 (fun h => (herr h).2.1) hy
    · obtain rfl : no' = x := Option.some.inj hx
      exact State.bears_imp (fun h => (herr h).2.2) hn

lemma loop_gives (ih : Checks tidy body) (hs : s.Sound) (hresult : c.returnType < s.count)
    (htest : test.All (s.Vets tidy False)) (hbody : body.All (s.Bears tidy False c.returnType)) :
    Gives (do
      let (test, m) ← condition c test
      let (body, n) ← stmt c.loop body
      return (test, body, m + n)) s fun r s' => s.Extends s' ∧ r.1.All (s'.Vets tidy (r.2.2 = 0)) ∧
        r.2.1.All (s'.Bears tidy (r.2.2 = 0) c.returnType) := by
  refine (condition_gives hs htest).seq fun (test', m) s1 ⟨hg, ht⟩ => ?_
  refine (ih c.loop s1 hg.sound (hresult.trans_le hg.count)
    (hg.bears hs hresult id hbody)).seq
    fun (body', n) s2 ⟨hext, hb⟩ => ⟨hg.toExtends.trans hext, ?_, ?_⟩
  · exact hext.vetted hg.sound Nat.eq_zero_of_add_eq_zero_right ht
  · exact State.bears_imp Nat.eq_zero_of_add_eq_zero_left hb

lemma whileLoop_checks (ih : Checks tidy body) : Checks tidy (.whileLoop token test body) := by
  intro c s hs hresult hgiven
  obtain ⟨htest, hbody⟩ := Stmt.all_whileLoop.1 hgiven
  obtain ⟨hext, h⟩ := loop_gives ih hs hresult htest hbody
  exact ⟨hext, Stmt.all_whileLoop.2 h⟩

lemma doLoop_checks (ih : Checks tidy body) : Checks tidy (.doLoop token body test) := by
  intro c s hs hresult hgiven
  obtain ⟨htest, hbody⟩ := Stmt.all_doLoop.1 hgiven
  obtain ⟨hext, h⟩ := loop_gives ih hs hresult htest hbody
  exact ⟨hext, Stmt.all_doLoop.2 h⟩

lemma forLoop_gives (hext0 : s0.Extends s) {test : Option Expr} (ih : Checks tidy body)
    (hresult : c.returnType < s.count)
    (hfirst : ∀ n ∈ first, n.All (s.Bears tidy accepted c.returnType))
    (htest : ∀ e ∈ test, e.All (s.Vets tidy False)) (hstep : ∀ e ∈ step, e.All (s.Vets tidy False))
    (hbody : body.All (s.Bears tidy False c.returnType)) (total : Nat → Nat → Nat → Nat)
    (htotal : ∀ l m n, total l m n = 0 → accepted ∧ l = 0 ∧ m = 0 ∧ n = 0) : Gives (do
      let (test, l) ← optionWith (condition c) test
      let (step, m) ← optionWith (expr c · none) step
      let (body, n) ← stmt c.loop body
      return (Stmt.forLoop token first test step body, total l m n)) s
      (Checked tidy c.returnType s0) := by
  have hs := hext0.sound
  refine (optionWith_gives hs (fun e he => condition_gives hs he) htest).seq
    fun (test', l) s1 ⟨hg1, ht⟩ => ?_
  refine (optionWith_gives hg1.sound (fun e he => expr_analyzes c e none s1 hg1.sound nofun he)
    fun e he => hg1.vetted hs id (hstep e he)).seq fun (step', m) s2 ⟨hg2, hst⟩ => ?_
  have hg := hg1.trans hg2
  refine (ih c.loop s2 hg.sound (hresult.trans_le hg.count)
    (hg.bears hs hresult id hbody)).seq fun (body', n) s3 ⟨hext, hb⟩ => ?_
  have hext1 := hg.toExtends.trans hext
  have herr := htotal l m n
  refine ⟨hext0.trans hext1, Stmt.all_forLoop.2 ⟨⟨fun e he => ?_, fun e he => ?_⟩, fun n hn => ?_, ?_⟩⟩
  · exact (hg2.toExtends.trans hext).vetted hg1.sound (fun h => (herr h).2.1) (ht e he)
  · exact hext.vetted hg.sound (fun h => (herr h).2.2.1) (hst e he)
  · exact hext1.bears hs hresult (fun h => (herr h).1) (hfirst n hn)
  · exact State.bears_imp (fun h => (herr h).2.2.2) hb

lemma forLoop_checks {test step : Option Expr}
    (ihf : ∀ n ∈ first, Checks tidy n) (ih : Checks tidy body) :
    Checks tidy (.forLoop token first test step body) := by
  intro c s hs hresult hgiven
  obtain ⟨⟨htest, hstep⟩, hfirst, hbody⟩ := Stmt.all_forLoop.1 hgiven
  cases first with
  | none =>
    have hnone : ∀ n ∈ (none : Option Stmt), n.All (s.Bears tidy True c.returnType) := nofun
    refine forLoop_gives hs.extends ih hresult hnone htest hstep hbody (fun l m n => l + m + n)
      fun l m n h => ⟨trivial, ?_⟩
    omega
  | some first =>
    refine (ihf first rfl c s hs hresult (hfirst first rfl)).seq fun (first', k) s1 ⟨hext, hf⟩ => ?_
    have hf (n : Stmt) (hn : n ∈ some first') : n.All (s1.Bears tidy (k = 0) c.returnType) :=
      some.inj hn ▸ hf
    refine forLoop_gives hext ih (hresult.trans_le hext.count) hf
      (fun e he => hext.vetted hs id (htest e he)) (fun e he => hext.vetted hs id (hstep e he))
      (hext.bears hs hresult id hbody) (fun l m n => k + l + m + n) fun l m n h => ?_
    omega

lemma ret_checks {value : Option Expr} : Checks tidy (.ret token value) :=
  fun _ _ hs hresult hgiven =>
    (returned_gives hs hresult fun e he => (Stmt.all_ret.1 hgiven e he).1).seq
      fun (_, _) _ ⟨hg, hv⟩ => ⟨hg.toExtends, Stmt.all_ret.2 hv⟩

lemma gotoAddress_checks : Checks tidy (.gotoAddress token target) := by
  intro c s hs hresult hgiven
  refine (expr_analyzes c target none s hs nofun (Stmt.all_gotoAddress.1 hgiven)).seq
    fun (target', n) s1 ⟨hg, ht⟩ => ?_
  dsimp only
  split
  · exact ⟨hg.toExtends, Stmt.all_gotoAddress.2 ht⟩
  · next herr =>
    have ht := accept (Nat.eq_zero_of_not_pos herr) ht
    refine .types ?_
    split
    · exact ⟨hg.toExtends, Stmt.all_gotoAddress.2 (vetted_imp (fun _ => trivial) ht)⟩
    · exact ⟨(hg.trans (hg.sound.quiet ⟨_, rfl⟩)).toExtends,
        Stmt.all_gotoAddress.2 (vetted_imp (s := s1) (fun _ => trivial) ht)⟩

lemma caseLabel_checks : Checks tidy (.caseLabel token value) := fun _ _ hs _ hgiven =>
  (caseValue_gives hs (Stmt.all_caseLabel.1 hgiven)).seq
    fun (_, _) _ ⟨hg, hv⟩ => ⟨hg.toExtends, Stmt.all_caseLabel.2 hv⟩

lemma assertion_checks : Checks tidy (.assertion token test message) :=
  fun _ _ hs _ hgiven => (condition_gives hs (Stmt.all_assertion.1 hgiven)).seq
    fun (_, _) _ ⟨hg, ht⟩ => ⟨hg.toExtends, Stmt.all_assertion.2 ht⟩

lemma switch_checks (ih : Checks tidy body) : Checks tidy (.switch token value body labels) := by
  intro c s hs hresult hgiven
  obtain ⟨⟨hlabels, hvalue⟩, hbody⟩ := Stmt.all_switch.1 hgiven
  refine (expr_analyzes c value none s hs nofun hvalue).seq fun (value', m) s1 ⟨hg, hv⟩ => ?_
  dsimp only
  -- The body is analyzed whether or not the value has errors.
  have hrest (valueType : Option TypeId) (m' : Nat) (s2 : State) (hquiet : Quiet s1 s2)
      (htype : ∀ type ∈ valueType, type < s1.count) (hm : m' = 0 → m = 0) : Gives (do
        let outer := (← get).switch
        modify fun s => { s with switch := some { valueType } }
        let (body, n) ← stmt { c with isBreakable := true } body
        modify fun s => { s with switch := outer }
        return (Stmt.switch token value' body labels, m' + n)) s2 (Checked tidy c.returnType s) := by
    obtain ⟨d, rfl⟩ := hquiet
    have hg2 := hg.trans (hg.sound.quiet ⟨d, rfl⟩)
    have hinside := hg2.within (w := some { valueType }) s1.cleanups (fun o ho => by
      obtain rfl := (Option.some.inj ho).symm
      exact htype)
    refine .get (.seq (Q := fun _ s' => s' =
      { s1 with diagnostics := d, switch := some { valueType } }) rfl fun _ s2 hs2 => ?_)
    subst hs2
    refine (ih { c with isBreakable := true } _ hinside.sound (hresult.trans_le hinside.count)
      (hinside.bears hs hresult id hbody)).seq fun (body', n) s3 ⟨hext, hb⟩ => ?_
    have hout : ∀ o ∈ s1.switch, ∀ type ∈ o.valueType, type < s3.count := fun o ho type hmem =>
      (hg.sound.switch o ho type hmem).trans_le hext.count
    have hleft := hext.sound.extends.within s3.cleanups hout
    refine ⟨hinside.trans (hext.trans hleft), Stmt.all_switch.2 ⟨⟨hlabels, ?_⟩, ?_⟩⟩
    · exact (hext.trans hleft).vetted hinside.sound
        (fun herr => hm (Nat.add_eq_zero_iff.1 herr).1) hv
    · exact hleft.bears hext.sound (hresult.trans_le (hinside.trans hext).count)
        Nat.eq_zero_of_add_eq_zero_left hb
  split
  · exact hrest none m s1 (.refl _) nofun id
  · next hm =>
    refine .seq (Q := fun r s' => Quiet s1 s' ∧ ∀ type ∈ r.1, type < s1.count) ?_
      fun (valueType, m') s2 ⟨hquiet, htype⟩ => hrest valueType m' s2 hquiet htype fun _ => by omega
    refine .types ?_
    split
    · exact ⟨.refl _, forall_mem_some
        (fits_of_all (accept (Nat.eq_zero_of_not_pos hm) hv)).typeOf_lt⟩
    · exact ⟨⟨_, rfl⟩, nofun⟩

lemma leaf_checked (hext : s.Extends s') (hleaf : n.nodes = [n]) (hn : s'.Bears tidy True result n)
    (errors : Nat) : Checked tidy result s (n, errors) s' :=
  ⟨hext, State.bears_imp (fun _ => trivial) ((Stmt.all_of_leaf hleaf).2 hn)⟩

lemma cleanup_checks (ih : Checks tidy body) : Checks tidy (.cleanup token body) := by
  intro c s hs hresult hgiven
  have hcounted := hs.extends.within (s.cleanups + 1) hs.switch
  have hrest (m : Nat) (s1 : State) (hext1 : s.Extends s1) : Gives (do
      let (body, n) ← stmt c body
      return (Stmt.cleanup token body, m + n)) s1 (Checked tidy c.returnType s) := by
    refine (ih c s1 hext1.sound (hresult.trans_le hext1.count)
      (hext1.bears hs hresult id (Stmt.all_cleanup.1 hgiven).2)).seq fun (body', n) s2 ⟨hext, hb⟩ => ?_
    exact ⟨hext1.trans hext, Stmt.all_cleanup.2 ⟨trivial,
      State.bears_imp Nat.eq_zero_of_add_eq_zero_left hb⟩⟩
  refine .seq (Q := fun _ s' => s' = { s with cleanups := s.cleanups + 1 }) rfl
    fun _ s1 hs1 => .get ?_
  subst hs1
  split
  · exact hrest 1 _ (hcounted.trans (hcounted.sound.quiet ⟨_, rfl⟩).toExtends)
  · exact hrest 0 _ hcounted

lemma stmt_checks (n : Stmt) : Checks tidy n := by
  induction n using Stmt.induction with
  | expr => exact expr_checks
  | block _ _ _ ih => exact block_checks ih
  | seq _ _ ih => exact seq_checks ih
  | branch _ _ _ _ ihy ihn => exact branch_checks ihy ihn
  | whileLoop _ _ _ ih => exact whileLoop_checks ih
  | doLoop _ _ _ ih => exact doLoop_checks ih
  | forLoop _ _ _ _ _ ihf ih => exact forLoop_checks ihf ih
  | ret => exact ret_checks
  | gotoAddress => exact gotoAddress_checks
  | switch _ _ _ _ ih => exact switch_checks ih
  | caseLabel => exact caseLabel_checks
  | assertion => exact assertion_checks
  | cleanup _ _ ih => exact cleanup_checks ih
  | label | empty => exact fun _ _ hs _ _ => leaf_checked hs.extends rfl (by trivial) 0
  | breakLoop | continueLoop | goto =>
    intro c s hs _ _
    unfold stmt
    split
    · exact leaf_checked hs.extends rfl (by trivial) 0
    · exact leaf_checked (hs.quiet ⟨_, rfl⟩).toExtends rfl (by trivial) 1
  | defaultLabel =>
    exact fun _ _ hs _ _ => (defaultErrors_gives hs).seq fun errors _ hg =>
      leaf_checked hg.toExtends rfl (by trivial) errors
  | asm _ code =>
    exact fun _ _ hs _ _ => (inlineAsm_gives hs code).seq fun (_, errors) _ hg =>
      leaf_checked hg.toExtends rfl (by trivial) errors

end Analysis

end CompilerCore
