import CompilerCore.Proofs.Machine.Local
import CompilerCore.Proofs.Machine.Regions

/-!
# Entering a call

A call starts with its arguments in its first registers and zero in the others.  Once the statics of
a module are initialized, a run ends as the call of its entry point does.
-/

namespace CompilerCore.Machine

open CompilerCore.Code StateTransition

variable {m : Module} {s t : State} {limit : Nat}

/-! ## The registers of a new call -/

lemma slot_passArguments_of_lt (args : List UInt64) (stack : Stack) (h : other + 8 ≤ base) :
    (State.passArguments args stack base).slot other = stack.slot other := by
  induction args generalizing stack base with
  | nil => rfl
  | cons _ _ ih =>
    rw [State.passArguments, ih _ (by omega), Stack.slot_setSlot_of_disjoint (.inl h)]

variable {args : List UInt64} {method : Method} {entry : String}

lemma slot_passArguments (h : base + args.length * 8 ≤ stack.bytes.size) :
    (State.passArguments args stack base).slot (base + k * 8) =
      args.getD k (stack.slot (base + k * 8)) := by
  induction args generalizing stack base k with
  | nil => rfl
  | cons a rest ih =>
    rw [List.length_cons] at h
    rw [State.passArguments]
    cases k with
    | zero =>
      rw [Nat.zero_mul, slot_passArguments_of_lt _ _ (by omega), Nat.add_zero,
        Stack.slot_setSlot_self (by omega), List.getD_cons_zero]
    | succ k =>
      have hplace : base + (k + 1) * 8 = base + 8 + k * 8 := by omega
      have hsize : base + 8 + rest.length * 8 ≤ (stack.setSlot base a).bytes.size := by
        rw [Stack.size_setSlot]
        omega
      rw [hplace, ih hsize, Stack.slot_setSlot_of_disjoint (.inr (by omega)), List.getD_cons_succ]

/-- A call starts with its arguments in the first registers and zero in the others. -/
lemma InCall.of_pushFrame (hs : 0 < s.stack.bytes.size) (hmeth : m.methods[callee]? = some method)
    (hargs : args.length ≤ method.registerCount) (hframe : method.frameBytes < 2 ^ 64) :
    InCall m method s.frames (0, fun k => args.getD k 0) (s.pushFrame m callee args) := by
  unfold State.pushFrame
  extract_lets callerExtent base size stack
  have hsize : size = method.registerCount * 8 + method.blockBytes.toNat := by
    simp only [size, hmeth, Option.map_some, Option.getD_some, Method.toNat_frameSize hframe]
  set zeroed := (s.stack.setExtent (base + size)).zero base size with hzeroed
  have hfit : base + size ≤ zeroed.bytes.size := by
    rw [hzeroed, Stack.zero, size_zeroBytes]
    exact Stack.extent_le_size hs _
  refine ⟨_, rfl, hmeth, rfl, rfl, fun k hk => ?_, ?_⟩
  · have hzero : zeroed.slot (base + k * 8) = 0 := by
      refine Stack.slot_eq_zero fun i hi => ?_
      rw [hzeroed, Stack.zero, byteAt_zeroBytes, if_pos (by omega)]
    have harguments' : base + args.length * 8 ≤ zeroed.bytes.size := by omega
    rw [← hzero]
    exact slot_passArguments harguments'
  · have hbytes : stack.bytes.size = zeroed.bytes.size := (passArguments_keeps _ _ _).1
    dsimp only
    omega

/-! ## Runs with enough steps -/

/-- Statics that are initialized within a limit are so, with the same result, within every large
one. -/
lemma initializeStatics_eventually (hsteps : s.steps = 0)
    (h : s.initializeStatics m limit = (.ok (), t)) :
    ∃ least, ∀ limit ≥ least, s.initializeStatics m limit = (.ok (), t) := by
  unfold State.initializeStatics at h ⊢
  cases hindex : m.methodIndex? staticInitializer with
  | none =>
    rw [hindex] at h
    cases h
    exact ⟨0, fun _ _ => rfl⟩
  | some =>
    rw [hindex] at h
    simp only [State.execute, hsteps, Nat.sub_zero] at h ⊢
    obtain ⟨hreach, hended⟩ := State.reaches_of_finish h
    obtain ⟨count, hcount⟩ := State.finish_of_reaches hreach
    refine ⟨count, fun limit hle => ?_⟩
    rw [(hcount limit limit).1 hle, State.finish_nil hended]

lemma finish_of_le {limit' fuel' : Nat} (hle : fuel ≤ fuel')
    (h : (s.finish m limit fuel).1 ≠ .error (.stepLimit limit)) :
    s.finish m limit' fuel' = s.finish m limit fuel := by
  induction fuel generalizing s fuel' with
  | zero =>
    cases hfs : s.frames with
    | nil => rw [State.finish_nil hfs, State.finish_nil hfs]
    | cons => exact absurd (by simp only [State.finish, hfs]) h
  | succ fuel ih =>
    obtain ⟨more, rfl⟩ : ∃ more, fuel' = more + 1 := ⟨fuel' - 1, by omega⟩
    obtain hfs | ⟨u, hu⟩ | ⟨fault, hfault⟩ := State.next_or_fault m s
    · rw [State.finish_nil hfs, State.finish_nil hfs]
    · rw [State.finish_next hu] at h
      rw [State.finish_next hu, State.finish_next hu]
      exact ih (by omega) h
    · obtain ⟨f, callers, -, hfin⟩ := State.finish_begin hfault
      rw [hfin, hfin]

lemma runMethod_of_le (hle : limit ≤ limit')
    (h : (s.runMethod m limit callee args).1 ≠ .error (.stepLimit limit)) :
    s.runMethod m limit' callee args = s.runMethod m limit callee args := by
  have hexecute (u : State) (callee : Nat) (given : List UInt64)
      (hu : (u.execute m limit callee given).1 ≠ .error (.stepLimit limit)) :
      u.execute m limit' callee given = u.execute m limit callee given :=
    finish_of_le (Nat.sub_le_sub_right hle _) hu
  unfold State.runMethod at h ⊢
  rcases hinit : (s.reset m).initializeStatics m limit with ⟨result, u⟩
  rw [hinit] at h
  have hinit' : (s.reset m).initializeStatics m limit' = (result, u) := by
    have hne : result ≠ .error (.stepLimit limit) := by
      rintro rfl
      exact h rfl
    unfold State.initializeStatics at hinit ⊢
    split at hinit
    · rw [hexecute _ _ _ (by rwa [hinit]), hinit]
    · exact hinit
  rw [hinit']
  cases result with
  | error => rfl
  | ok => exact hexecute _ _ _ h

/-- A run that does not exhaust its limit goes the same way within every larger one. -/
lemma run_of_le (hle : limit ≤ limit') (h : (s.run m limit entry args).1 ≠ .error (.stepLimit limit)) :
    (s.run m limit' entry args).1 = (s.run m limit entry args).1 ∧
      (s.run m limit' entry args).2.steps = (s.run m limit entry args).2.steps := by
  obtain ⟨callee, method, hindex, hmethod, hcount⟩ | ⟨fault, -, hrejects⟩ := accepts_or_rejects
  · have hrun := run_eq_runMethod hindex hmethod hcount
    have hsame : s.runMethod m limit' callee args = s.runMethod m limit callee args := by
      refine runMethod_of_le hle fun hended => h ?_
      exact (hrun limit s).1.trans (answer_of_error hended)
    rw [(hrun limit' s).1, (hrun limit' s).2.1, hsame, (hrun limit s).1, (hrun limit s).2.1]
    exact ⟨rfl, rfl⟩
  · rw [hrejects, hrejects]
    exact ⟨rfl, rfl⟩

lemma run_eq_of_initialized (hindex : m.methodIndex? entry = some callee)
    (hmeth : m.methods[callee]? = some method) (hargs : args.length = method.parameters.length)
    (hinit : (s.reset m).initializeStatics m limit = (.ok (), t)) :
    ∃ least, ∀ limit ≥ least, (s.run m limit entry args).1 =
      answer method ((t.pushFrame m callee args).finish m limit (limit - t.steps)) := by
  obtain ⟨least, hleast⟩ := initializeStatics_eventually rfl hinit
  refine ⟨least, fun limit hle => ?_⟩
  rw [(run_eq_runMethod hindex hmeth hargs limit s).1, State.runMethod, hleast limit hle]
  rfl

/-- The parts of a run that returns. -/
lemma run_eq_ok (h : (s.run m limit entry args).1 = .ok v) :
    ∃ callee method before after, m.methodIndex? entry = some callee ∧
      m.methods[callee]? = some method ∧ args.length = method.parameters.length ∧
      (s.reset m).initializeStatics m limit = (.ok (), before) ∧
      (before.pushFrame m callee args).finish m limit (limit - before.steps) = (.ok (), after) ∧
      extend after.result method.returnType = v := by
  obtain ⟨callee, method, hindex, hmeth, hcount⟩ | ⟨fault, -, hrejects⟩ := accepts_or_rejects
  · rw [(run_eq_runMethod hindex hmeth hcount limit s).1, State.runMethod] at h
    rcases hinit : (s.reset m).initializeStatics m limit with ⟨_ | _, before⟩
    · rw [hinit] at h
      cases h
    · simp only [hinit, State.execute] at h
      rcases hfin : (before.pushFrame m callee args).finish m limit (limit - before.steps)
        with ⟨_ | _, after⟩
      · rw [hfin] at h
        cases h
      · rw [hfin] at h
        exact ⟨callee, method, before, after, hindex, hmeth, hcount, rfl, hfin, Except.ok.inj h⟩
  · rw [hrejects] at h
    cases h

end CompilerCore.Machine
