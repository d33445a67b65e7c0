import CompilerCore.Proofs.Lowering.Coherence

/-!
# Simplification keeps programs well typed

Each rule of simplification replaces a node by one of the same kind: an operation on integers and the
operations that stand for it take place in one type, and an assignment has the type of its target.
-/

namespace CompilerCore

open CompilerCore.Expr

namespace Simplify

variable {m : Scene} {t : TypeTable} {lhs rhs e e' : Expr} {note : Note}

lemma isInteger_iff : isInteger t e = true ↔ e.HasIntegers t := by
  unfold isInteger HasIntegers kind? Note.kind? type?
  cases e.note.type with
  | none => simp
  | some => simp [TypeTable.isInteger_eq]

lemma not_hasIntegers_of_isFloat (h : isFloat t e = true) : ¬ e.HasIntegers t := by
  unfold isFloat HasIntegers kind? Note.kind? type? at *
  cases htype : e.note.type with
  | none => simp
  | some type =>
    rw [htype, Option.any_some, TypeTable.isFloat_eq] at h
    rintro ⟨k, hk, hint⟩
    obtain rfl : t.kind type = k := Option.some.inj hk
    cases hkind : t.kind type with
    | primitive p =>
      rw [hkind] at h hint
      cases p <;> simp [Kind.isFloat, Kind.isInteger, Primitive.isInteger] at h hint
    | _ =>
      rw [hkind] at h
      cases h

/-! ## Rules -/

lemma integerFor_kind (htype : type.map t.kind = e.kind? t) :
    (integerFor value type e).kind? t = e.kind? t := by
  cases type with
  | none => rfl
  | some => exact htype

lemma integerFor_complete (h : e.Complete m)
    (hnorm : m.tidy → (integerFor value type e).Normalized m.types) :
    (integerFor value type e).All (Complete m) := by
  cases type with
  | none => exact complete_literal h.resolved.1 hnorm
  | some => exact complete_literal rfl hnorm

lemma integerFor_normalized (h : rhs.Normalized t) (hc : rhs.integer? = some c)
    (hpos : 0 ≤ value.toInt) (hlt : value.toInt < c.toInt) :
    (integerFor value rhs.type? rhs).Normalized t := by
  cases rhs with
  | literal note constant =>
    intro type hfound
    have htype : type ∈ note.type := by simpa [type?, Expr.note] using hfound
    refine Fold.normalize_eq_self.2 fun s hs => ?_
    cases constant with
    | integer =>
      cases hc
      exact (Fold.normalize_eq_self.1 (h type htype) s hs).of_le hpos hlt.le
    | bool b =>
      cases hc
      have hzero : value = 0 := by
        refine Int64.toInt_inj.1 (le_antisymm (Int.lt_add_one_iff.1 (hlt.trans_le ?_)) hpos)
        cases b <;> decide
      exact hzero ▸ s.holds_zero
    | _ => cases hc
  | _ => cases hc

lemma powerOfTwo?_bounds (h : powerOfTwo? c = some k) :
    (0 ≤ (Int64.ofNat k).toInt ∧ (Int64.ofNat k).toInt < c.toInt) ∧
      0 ≤ (c - 1).toInt ∧ (c - 1).toInt < c.toInt := by
  unfold powerOfTwo? at h
  split at h
  · next hpos =>
    obtain rfl := Option.some.inj h
    have hpos : 0 < c.toInt := Int64.lt_iff_toInt_lt.1 hpos.1
    have hlt := c.toInt_lt
    have hlog : c.toInt.toNat.log2 < c.toInt.toNat :=
      (Nat.log2_lt (by omega)).2 Nat.lt_two_pow_self
    have hpred : (c - 1).toInt = c.toInt - 1 :=
      (Int64.toInt_sub c 1).trans (Int.bmod_eq_of_le (by simp; omega) (by simp; omega))
    rw [Int64.toInt_ofNat_of_lt (by omega), hpred]
    omega
  · cases h

lemma binaryRule?_replaces (hrule : binaryRule? m.types op lhs rhs note.type = some e')
    (h : (binary note op lhs rhs).All (Complete m)) :
    Replaces m (.binary note op lhs rhs) e' := by
  obtain ⟨hnode, hl, hr⟩ := all_binary.1 h
  obtain ⟨op, c, rfl, hil, hir, hc, hreduces⟩ | ⟨_, _, _, rfl, hfloat, rfl, rfl⟩ :=
    binaryRule?_eq_some hrule
  · have hil := isInteger_iff.1 hil
    obtain ⟨hkind, hother⟩ := hnode.coherent.1 hil (isInteger_iff.1 hir)
    have hint : (binary note (.arith op) lhs rhs).HasIntegers m.types :=
      (HasIntegers.congr hkind).1 hil
    cases hreduces with
    | left => exact ⟨hkind, .inr hint, (hl.self.resolved.depth_eq_zero hil).le, False.elim, hl⟩
    | zero =>
      exact ⟨(integerFor_kind hkind.symm).trans hkind, .inr hint, le_rfl, False.elim,
        integerFor_complete hl.self fun _ _ _ => Fold.normalize_eq_self.2 fun s _ => s.holds_zero⟩
    | operation hk h =>
      refine .of_type rfl le_rfl False.elim (all_binary.2 ⟨⟨⟨fun _ _ => ⟨hkind, fun hshift => ?_⟩,
        fun _ => hint⟩, hnode.resolved, trivial, trivial, fun _ => trivial⟩, hl,
        integerFor_complete hr.self fun htidy => ?_⟩)
      refine (integerFor_kind rfl).trans (hother ?_)
      -- Shifts stand for products and quotients, and only a remainder needs the kind of the constant.
      obtain ⟨-, rfl, -⟩ | ⟨-, ⟨-, rfl, -⟩ | ⟨rfl, -, -⟩⟩ := h
      · exact absurd rfl hshift
      · exact absurd rfl hshift
      · exact nofun
      obtain ⟨⟨hpos, hlt⟩, hpred, hpred'⟩ := powerOfTwo?_bounds hk
      have hnorm := hr.self.normal htidy
      obtain ⟨-, -, rfl⟩ | ⟨-, ⟨-, -, rfl⟩ | ⟨-, -, rfl⟩⟩ := h
      · exact integerFor_normalized hnorm hc hpos hlt
      · exact integerFor_normalized hnorm hc hpos hlt
      · exact integerFor_normalized hnorm hc hpred hpred'
  · exact .of_type rfl le_rfl False.elim (all_binary.2
      ⟨⟨⟨fun hint => absurd hint (not_hasIntegers_of_isFloat hfloat), absurd rfl⟩, hnode.resolved,
        trivial, trivial, fun _ => trivial⟩, hl, complete_literal hr.self.resolved.1 fun _ => trivial⟩)

lemma swap_replaces (hswap : swapsOperands m.types op lhs rhs = true)
    (h : (binary note op lhs rhs).All (Complete m)) :
    Replaces m (.binary note op lhs rhs) (.binary note op rhs lhs) := by
  obtain ⟨hnode, hl, hr⟩ := all_binary.1 h
  obtain ⟨op', rfl, hgroup⟩ : ∃ op', op = .arith op' ∧ op'.group ≠ .shift := by
    simp only [swapsOperands, Bool.and_eq_true, Bool.or_eq_true, decide_eq_true_eq] at hswap
    obtain ⟨⟨⟨rfl | rfl, -⟩, -⟩, -⟩ := hswap
    · exact ⟨.add, rfl, nofun⟩
    · exact ⟨.mul, rfl, nofun⟩
  refine .of_type rfl le_rfl False.elim
    (all_binary.2 ⟨⟨⟨fun hir hil => ?_, hnode.coherent.2⟩, hnode.resolved, trivial, trivial,
      fun _ => trivial⟩, hr, hl⟩)
  obtain ⟨hkind, hother⟩ := hnode.coherent.1 hil hir
  exact ⟨hother hgroup, fun _ => hkind⟩

lemma assignRule?_replaces (hrule : assignRule? m.types lhs rhs = some e')
    (h : (assign note lhs rhs).All (Complete m)) : Replaces m (.assign note lhs rhs) e' := by
  obtain ⟨⟨⟨hplace, hnote, -⟩, -, -, howned⟩, hl, -⟩ := all_assign.1 h
  obtain ⟨-, rfl⟩ | ⟨_, _, _, _, -, -, -, rfl⟩ := assignRule?_eq_some hrule
  · exact ⟨hnote.symm, .inl (.symm howned), hplace.depth_eq_zero.le, False.elim, hl⟩
  · exact ⟨hnote.symm, .inl (.symm howned), le_rfl, False.elim,
      all_unary.2 ⟨⟨trivial, ⟨hl.self.resolved.1, trivial⟩, trivial, trivial, fun _ => trivial⟩, hl⟩⟩

lemma notRule?_replaces (hrule : notRule? m.types note e = some e')
    (h : (unary note .not e).All (Complete m)) : Replaces m (.unary note .not e) e' := by
  obtain ⟨hnode, he⟩ := all_unary.1 h
  obtain ⟨_, _, _, _, rfl, rfl⟩ := notRule?_eq_some hrule
  obtain ⟨hcompare, hl, hr⟩ := all_binary.1 he
  exact .of_type rfl le_rfl False.elim (all_binary.2
    ⟨⟨⟨hcompare.coherent.1, hnode.coherent⟩, hnode.resolved, trivial, trivial, fun _ => trivial⟩, hl, hr⟩)

lemma node_replaces (h : e.All (Complete m)) : Replaces m e (node m.types e n).1 := by
  unfold node
  split
  · next note op lhs rhs =>
    by_cases hswap : swapsOperands m.types op lhs rhs = true
    · have hswapped := swap_replaces hswap h
      rw [if_pos hswap]
      exact hswapped.trans (orKeep_yields (fun _ => .refl hswapped.complete)
        (fun _ hrule => binaryRule?_replaces hrule hswapped.complete) n)
    · rw [if_neg hswap]
      exact orKeep_yields (fun _ => .refl h) (fun _ hrule => binaryRule?_replaces hrule h) n
  · exact orKeep_yields (fun _ => .refl h) (fun _ hrule => assignRule?_replaces hrule h) n
  · exact orKeep_yields (fun _ => .refl h) (fun _ hrule => notRule?_replaces hrule h) n
  · exact .refl h

lemma expr_replaces (e : Expr) (h : e.All (Complete m)) (n : Nat) :
    Replaces m e (expr m.types e n).1 :=
  .of_walks (expr_walks _) (fun _ _ h => node_replaces h) h n

lemma complete_respects : Respects m.types (Complete m)
    fun e => e.kind? m.types = some (m.types.kind result) where
  expr e h n := (expr_replaces e h n).complete
  result e h hkind n := (expr_replaces e h n).kind.trans hkind

end Simplify

/-! ## Programs -/

variable {t : TypeTable} {scopes : ScopeTree} {i : Item}

/-- Every expression of an item is complete, and each value it returns has the kind of its result.
-/
def Item.Complete (m : Scene) (i : Item) : Prop :=
  i.statement.All
    (Stmt.Holds (Expr.Complete m) fun e => e.kind? m.types = some (m.types.kind i.result))

lemma Item.Complete.coherent (h : i.Complete m) : i.Coherent m.types m.scopes :=
  Stmt.All.mono (fun _ => Stmt.Holds.mono (fun _ he => he.coherent) fun _ => id) h

lemma Item.Complete.lower (ht : m.types.Sound) (hfree : ControlFlow.abortName ∈ m.free)
    (h : i.Complete m) (limit : Nat) : (i.lower m.types m.scopes limit).2.Complete m := by
  have hrespects (result : TypeId) : ControlFlow.Respects m.types m.scopes (Expr.Complete m)
      fun e => e.kind? m.types = some (m.types.kind result) :=
    ControlFlow.complete_respects ht hfree
  cases i with
  | function => exact Simplify.complete_respects.passes limit ((hrespects _).passes limit h)
  | global => exact (hrespects _).passes limit h

/-- What a lowered item is judged by. -/
abbrev Scene.lowered (t : TypeTable) (scopes : ScopeTree) : Scene :=
  { types := t, scopes, free := [ControlFlow.abortName], tidy := False }

lemma Item.WellTyped.lower (ht : t.Sound) (h : i.WellTyped t scopes) (limit : Nat) :
    (i.lower t scopes limit).2.Complete (.lowered t scopes) :=
  have hcomp : i.Complete (.lowered t scopes) :=
    Stmt.All.mono (fun _ => Stmt.Holds.mono (fun _ he => he.complete False.elim) fun _ => id) h
  hcomp.lower ht (List.mem_singleton_self _) limit

lemma Program.mem_lower {p : Program} : i ∈ (p.lower t config).2.items ↔
      ∃ given ∈ p.items, (given.lower t p.scopes config.maxLoweringPasses).2 = i := by
  simp [lower]

end CompilerCore
