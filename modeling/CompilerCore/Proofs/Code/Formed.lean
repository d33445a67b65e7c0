import CompilerCore.Proofs.Code.Scalar
import CompilerCore.Proofs.Code.Typed
import CompilerCore.Proofs.Machine.Safety

/-!
# Instructions that can be performed

Analysis admits operations on bits for integers only, and lowering introduces them for integers only.
Enums count as integers there, but an operation on them takes place in the type that the enum is
over.  Unless that is a float, every instruction of a compiled program can be performed.
-/

namespace CompilerCore

open Code Machine OperandType Demo

namespace TypeTable

/-- No enum is over a float. -/
def Counts (t : TypeTable) : Prop :=
  ∀ id < t.slots.size, t.kind id = .enum → (of t id).kind ≠ .float

instance (t : TypeTable) : Decidable t.Counts :=
  inferInstanceAs (Decidable (∀ id < t.slots.size, _))

variable {t : TypeTable} {id : TypeId}

lemma Counts.kind_ne_float (ht : t.Counts) (h : (t.kind id).isInteger = true) :
    (of t id).kind ≠ .float := by
  cases hshape : t.shape id with
  | builtin p =>
    rw [kind, hshape] at h
    rw [operand_of_builtin hshape]
    obtain hkind | hkind := (isInteger_ofPrimitive h).kind <;> simp [hkind]
  | enum =>
    refine ht id (Nat.lt_of_not_le fun hle => ?_) (by rw [kind, hshape]; rfl)
    rw [shape_of_le hle] at hshape
    cases hshape
  | _ =>
    rw [kind, hshape] at h
    cases h

end TypeTable

lemma Expr.Coherent.suits {t : TypeTable} {scopes : ScopeTree} {e : Expr} (ht : t.Counts)
    (h : e.Coherent t scopes) : e.Suits t := by
  have hint {note : Note} (h : note.HasIntegers t) (type : TypeId) (htype : type ∈ note.type) :
      (of t type).kind ≠ .float := by
    obtain ⟨k, hk, hint⟩ := h
    rw [Note.kind?, htype] at hk
    obtain rfl := Option.some.inj hk
    exact ht.kind_ne_float hint
  cases e with
  | binary note op =>
    cases op with
    | arith op =>
      intro type htype
      by_cases hgroup : op.group = .numeric
      · exact .inr hgroup
      · exact .inl (hint (h.2 hgroup) type htype)
    | compare | and | or => exact fun _ _ => trivial
  | unary note op =>
    cases op with
    | complement => exact hint h.2
    | _ => trivial
  | _ => trivial

namespace Session

variable {s s' : Session} {p p' : Program} {m : Module}

lemma compile_eq_ok (h : s.compile p = (.ok m, p', s')) :
    ∃ accepted n, p.analyze s.config s.types s.diagnostics = accepted ∧ accepted.result = .ok n ∧
      s'.types = accepted.types ∧ (accepted.program.lower accepted.types s.config).2 = p' ∧
      p'.compile accepted.types "main" = .ok m := by
  unfold compile analyze lower at h
  dsimp only at h
  split at h
  · cases h
  · next n hok =>
    split at h
    · cases h
    · next hcompile =>
      cases h
      exact ⟨_, n, rfl, hok, rfl, rfl, hcompile⟩

/-- No instruction of a compiled program is one that cannot be performed, whatever the machine, the
entry point and the arguments, provided that no enum is over a float. -/
theorem run_never_malformed (hbuilt : p.IsBuilt s.types) (hcompile : s.compile p = (.ok m, p', s'))
    (hcounts : s'.types.Counts) (machine : State) (limit : Nat) (entry : String)
    (arguments : List UInt64) (opcode : Opcode) :
    (machine.run m limit entry arguments).1 ≠ .error (.malformed opcode) := by
  obtain ⟨accepted, n, hanalyze, hok, htypes, rfl, hcode⟩ := compile_eq_ok hcompile
  obtain ⟨hsound, -, hwellTyped⟩ := hbuilt.wellTyped hanalyze hok
  rw [htypes] at hcounts
  have hitems : ∀ i ∈ (accepted.program.lower accepted.types s.config).2.items,
      i.statement.All (Stmt.Holds (Expr.Suits accepted.types) fun _ => True) := by
    intro i hi
    obtain ⟨given, hgiven, rfl⟩ := Program.mem_lower.1 hi
    exact Stmt.All.mono (fun _ => Stmt.Holds.mono (fun _ h => h.coherent.suits hcounts) fun _ _ => trivial)
      ((hwellTyped given hgiven).lower hsound _)
  have hformed : m.Formed := Program.compile_formed
    ⟨fun f hf => Function.all_emitted (hitems _ (Program.mem_functions.1 hf)),
      List.forall_mem_flatMap.2 fun g hg => Stmt.all_emitted (hitems _ (Program.mem_globals.1 hg))⟩ hcode
  exact fun h => run_not_isGrave (Program.compile_closed hcode) (fun _ : True => hformed) machine entry
    arguments _ h trivial

end Session

def masking : Program × Session :=
  (Session.start {}).build "masking" do
    let level ← Build.enum "Level" (Primitive.unsigned .w8).index [⟨"low", .literal 1⟩]
    Build.function "masking" level [{ name := "n", type := level }] do
      let shifted ← binary (.arith .shl) (← ident "n") (← int 1)
      return [← giveBack (← Build.expr (.unary · .complement shifted))]

theorem Session.run_never_malformed_masking :
    ∃ m p s, masking.2.compile masking.1 = (.ok m, p, s) ∧ m.methods.size = 1 ∧
      ∀ n opcode, ((State.start 64).run m 100 "masking" [n]).1 ≠ .error (.malformed opcode) := by
  have hbuilt : masking.1.IsBuilt masking.2.types := by decide +kernel
  have hcounts : (masking.2.compile masking.1).2.2.types.Counts := by decide +kernel
  have hmodule : ∃ m, (masking.2.compile masking.1).1 = .ok m ∧ m.methods.size = 1 := by
    decide +kernel
  rcases h : masking.2.compile masking.1 with ⟨result, p, s⟩
  rw [h] at hcounts hmodule
  obtain ⟨m, rfl, hsize⟩ := hmodule
  exact ⟨m, p, s, rfl, hsize, fun n => run_never_malformed hbuilt h hcounts _ _ _ _⟩

def meeting : Program × Session :=
  (Session.start {}).build "meeting" do
    let level ← Build.enum "Level" TypeId.f64 [⟨"low", .literal 1⟩]
    Build.function "meeting" level [{ name := "n", type := level }] do
      return [← giveBack (← binary (.arith .band) (← ident "n") (← ident "n"))]

/-- An accepted program whose run comes to an operation on bits of floats. -/
theorem Session.run_malformed_meeting :
    (meeting.2.compile meeting.1).1.map (fun m => ((State.start 64).run m 100 "meeting" [1]).1) =
      .ok (.error (.malformed (.arith .band))) := by
  decide +kernel

end CompilerCore
