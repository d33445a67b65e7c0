import CompilerCore.Demo
import CompilerCore.Proofs.Lowering.Simplified

/-!
# Literals of accepted and lowered programs

Analysis gives a literal a type that its value is in the range of, folds in the range of the result
and takes the constants of enums as they are declared.  Lowering puts in zeros, positions in arrays
and, for a constant in range, constants below it.  Hence integer literals are in the range of their
types provided that the declared constants are; a load then gives back what a store of a literal has
left.
-/

namespace CompilerCore

open Code

/-- Every constant is in the range of the type that it is declared in. -/
def TypeTable.FitsConstants (t : TypeTable) : Prop :=
  ∀ id < t.slots.size, ∀ constant ∈ (t.slot id).constants,
    ∀ value ∈ t.constantValue? id constant.name, Fold.normalize t id value = value

instance (t : TypeTable) : Decidable t.FitsConstants :=
  have (id : TypeId) (name : String) : Decidable (∀ value ∈ t.constantValue? id name,
      Fold.normalize t id value = value) := Option.decidableForallMem _
  inferInstanceAs (Decidable (∀ id < t.slots.size, ∀ constant ∈ (t.slot id).constants,
    ∀ value ∈ t.constantValue? id constant.name, Fold.normalize t id value = value))

variable {t : TypeTable} {type : TypeId} {value : Int64}

lemma TypeTable.FitsConstants.normalize (h : t.FitsConstants) (howner : owner < t.slots.size)
    (hvalue : t.constantValue? owner name = some value) : Fold.normalize t owner value = value := by
  obtain ⟨constant, hconstant, rfl⟩ : ∃ constant ∈ (t.slot owner).constants, constant.name = name := by
    unfold constantValue? at hvalue
    dsimp only at hvalue
    cases hfuel : (t.slot owner).constants.length with
    | zero =>
      rw [hfuel] at hvalue
      cases hvalue
    | succ =>
      rw [hfuel] at hvalue
      obtain ⟨position, hposition, -⟩ := Option.bind_eq_some_iff.1 hvalue
      have hany := Option.isSome_of_eq_some hposition
      simpa [List.findIdx?_isSome] using hany
  exact h owner howner constant hconstant value hvalue

lemma TypeTable.Offers.normalize (h : t.Offers type value) (hconsts : t.FitsConstants) :
    Fold.normalize t type value = value := by
  obtain h | ⟨owner, howner, hfoll, name, hvalue⟩ := h
  · exact h.normalize
  · refine Fold.normalize_eq_self.2 fun s hs => ?_
    have howned : s ∈ t.scalar? owner := by
      rw [scalar?_eq] at hs ⊢
      exact hfoll _ s hs
    exact Fold.normalize_eq_self.1 (hconsts.normalize howner hvalue) s howned

lemma Expr.Normal.normalized {e : Expr} (h : e.Normal t) (hconsts : t.FitsConstants) :
    e.Normalized t := by
  cases e with
  | literal _ value =>
    cases value with
    | integer => exact fun type htype => (h type htype).normalize hconsts
    | _ => trivial
  | _ => trivial

lemma TypeTable.of_scalar? (h : t.scalar? type = some (.integer width isSigned)) :
    OperandType.of t type = .whole width isSigned := by
  unfold scalar? at h
  unfold OperandType.of
  split at h
  · next hshape =>
    cases h
    rw [hshape]
    rfl
  · next hshape =>
    cases h
    rw [hshape]
    rfl
  · next hshape =>
    cases h
    rw [hshape]
    rfl
  · cases h
  · cases h

/-- A value in range is what its low bytes are extended to. -/
lemma Fold.extend_of_normalize (h : normalize t type value = value)
    (hscal : t.scalar? type = some (.integer width isSigned)) :
    Machine.extend value.toUInt64 (OperandType.of t type) = value.toUInt64 := by
  have hwrap : wrap width isSigned value.toInt = value := normalize_eq_self.1 h _ hscal
  rw [t.of_scalar? hscal, OperandType.extend_eq OperandType.isInteger_whole,
    OperandType.read_toUInt64 OperandType.isInteger_whole, OperandType.word, ← wrap_eq, hwrap]

namespace Program

/-- The integer literals of an accepted program, and of what it is lowered to, are in the ranges of
their types if its constants are. -/
theorem literals_in_range {p : Program} {types : TypeTable} (hbuilt : p.IsBuilt types)
    (huntyped : p.Untyped) {config : Config} {diagnostics : Diagnostics} {accepted : Analysis.Outcome}
    (hanalyze : p.analyze config types diagnostics = accepted) {n : Nat}
    (hok : accepted.result = .ok n) (hconstants : accepted.types.FitsConstants) (lowering : Config)
    {lowered : Program} (hlower : (accepted.program.lower accepted.types lowering).2 = lowered) :
    ∀ i ∈ accepted.program.items ++ lowered.items, ∀ note value,
      .literal note (.integer value) ∈ i.statement.exprNodes → ∀ type ∈ note.type,
        Fold.normalize accepted.types type value = value ∧
        ∀ width isSigned, accepted.types.scalar? type = some (.integer width isSigned) →
          Machine.extend value.toUInt64 (OperandType.of accepted.types type) = value.toUInt64 := by
  subst hlower
  obtain ⟨_, _, -, s, htypes, hscopes, hext, hitems⟩ := hbuilt.extends hanalyze hok
  rw [← htypes] at hconstants ⊢
  let m : Scene := ⟨s.types, s.scopes, [ControlFlow.abortName], True⟩
  have hcomplete (i : Item) (hi : i ∈ accepted.program.items) : i.Complete m :=
    (hitems i hi).holds fun e hnormal he => he.complete fun _ => (hnormal huntyped).normalized hconstants
  intro i hi note value he type htype
  have hi : i.Complete m := by
    obtain hi | hi := List.mem_append.1 hi
    · exact hcomplete i hi
    · obtain ⟨given, hgiven, rfl⟩ := mem_lower.1 hi
      rw [← hscopes]
      exact (hcomplete given hgiven).lower hext.sound.types (List.mem_singleton_self _) _
  have hnormal := (Stmt.All.exprNodes hi _ he).normal trivial type htype
  exact ⟨hnormal, fun _ _ => Fold.extend_of_normalize hnormal⟩

/-- The function `Grade graded(i32 n) { i32 scaled = n * 8; return Grade::high; }`, where `high` is a
constant of an enum over bytes. -/
def graded (high : Int64) : Program × Session :=
  (Session.start {}).build "graded" do
    let grade ← Build.enum "Grade" (Primitive.unsigned .w8).index [⟨"high", .literal high⟩]
    Build.function "graded" grade [{ name := "n", type := TypeId.i32 }] do
      let product ← Demo.binary (.arith .mul) (← Demo.ident "n") (← Demo.int 8)
      let scaled ← Build.localVar "scaled" (some TypeId.i32) (some product)
      let high ← Build.expr (.qualified · "Grade" "high")
      return [scaled, ← Demo.giveBack high]

def acceptedGraded (high : Int64) : Analysis.Outcome :=
  (graded high).1.analyze {} (graded high).2.types []

def loweredGraded (high : Int64) : Program :=
  ((acceptedGraded high).program.lower (acceptedGraded high).types {}).2

/-- Lowering puts a shift by three in the place of the product. -/
theorem literals_in_range_graded :
    (acceptedGraded 200).result = .ok 1 ∧
    (loweredGraded 200).items.map (fun i => i.statement.exprNodes.filterMap (·.integer?)) = [[3, 200]] ∧
    ∀ i ∈ (acceptedGraded 200).program.items ++ (loweredGraded 200).items, ∀ note value,
      .literal note (.integer value) ∈ i.statement.exprNodes → ∀ type ∈ note.type,
        Fold.normalize (acceptedGraded 200).types type value = value := by
  have hbuilt : (graded 200).1.IsBuilt (graded 200).2.types := by decide +kernel
  have huntyped : (graded 200).1.Untyped := by decide +kernel
  have hok : (acceptedGraded 200).result = .ok 1 := by decide +kernel
  have hanalyze : (graded 200).1.analyze {} (graded 200).2.types [] = acceptedGraded 200 := rfl
  have hconstants : (acceptedGraded 200).types.FitsConstants := by decide +kernel
  have hlower : ((acceptedGraded 200).program.lower (acceptedGraded 200).types {}).2 =
      loweredGraded 200 := rfl
  exact ⟨hok, by decide +kernel, fun i hi note value he type htype =>
    (literals_in_range hbuilt huntyped hanalyze hok hconstants {} hlower i hi note value he type htype).1⟩

/-- A constant that is out of the range of its enum is taken as it is declared. -/
theorem constant_out_of_range :
    (acceptedGraded 300).result = .ok 1 ∧
    ∃ i ∈ (acceptedGraded 300).program.items, ∃ e ∈ i.statement.exprNodes, e.integer? = some 300 ∧
      ∃ type ∈ e.type?, Fold.normalize (acceptedGraded 300).types type 300 = 44 := by
  decide +kernel

end Program

end CompilerCore
