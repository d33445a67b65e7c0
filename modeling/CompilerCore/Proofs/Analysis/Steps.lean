import CompilerCore.Analysis.Expression
import Mathlib.Tactic.Lemma

/-!
# What holds after a step of analysis

Analysis counts errors and reports complaints in different places: the count says what becomes of an
item, the reports are what a user sees.  A step is followed here with a mark that says whether an error
has been reported so far (`Reports`).  Analysis of expressions reports complaints, makes types and
changes symbols, and leaves the rest of its state alone (`Tells`).
-/

namespace CompilerCore.Analysis

open Diagnostics

variable {α β : Type} {m : Analyze α} {f : α → Analyze β} {s : State} {Q : α → State → Prop}
  {R : β → State → Prop}

/-- The analysis of a conditional from its branches on, after `k` errors of its test. -/
def conditionalBranches (c : Context) (note : Note) (test yes no : Expr) (expected : Option TypeId)
    (k : Nat) : Analyze (Expr × Nat) := do
  let (yes, m) ← expr c yes expected
  let (no, n) ← expr c no expected
  if 0 < k + m + n then return (.conditional note test yes no, k + m + n)
  else
    let (yes, no, verdict) ← conditionalVerdict note.token yes no
    conclude (.conditional note test yes no) verdict

/-- What holds of the result of a step and of the state after it. -/
def Gives (m : Analyze α) (s : State) (Q : α → State → Prop) : Prop := Q (m s).1 (m s).2

lemma Gives.bind (h : ∀ a s', m s = (a, s') → Gives (f a) s' R) : Gives (m >>= f) s R :=
  h _ _ rfl

lemma Gives.get {f : State → Analyze β} (h : Gives (f s) s R) : Gives (MonadState.get >>= f) s R := h

lemma Gives.types {f : TypeTable → Analyze β} (h : Gives (f s.types) s R) :
    Gives (Analysis.types >>= f) s R := h

lemma Gives.seq (h : Gives m s Q) (hf : ∀ a s', Q a s' → Gives (f a) s' R) : Gives (m >>= f) s R :=
  hf _ _ h

lemma Gives.imp (h : Gives m s Q) (hQ : ∀ a s', Q a s' → Q' a s') : Gives m s Q' :=
  hQ _ _ h

lemma Gives.and (h : Gives m s Q) (h' : Gives m s Q') : Gives m s fun a s' => Q a s' ∧ Q' a s' :=
  ⟨h, h'⟩

lemma Gives.run (h : Gives m s Q) (hrun : m s = (a, s')) : Q a s' := by
  rw [Gives, hrun] at h
  exact h

/-! ## Reports of a step -/

/-- What holds of the result of a step, of the state after it, and of whether an error has been
reported, provided that it is known whether one had been before. -/
def Reports (failed : Bool) (m : Analyze α) (s : State) (Q : Bool → α → State → Prop) : Prop :=
  ∃ added : Diagnostics, (m s).2.diagnostics = s.diagnostics ++ added ∧
    Q (failed || added.hasErrors) (m s).1 (m s).2

lemma hasErrors_append (ds ds' : Diagnostics) :
    hasErrors (ds ++ ds') = (hasErrors ds || hasErrors ds') := by
  simp only [hasErrors, errorCount, List.countP_append,
    Nat.add_pos_iff_pos_or_pos, Bool.decide_or]
  rfl

namespace Reports

variable {α β : Type} {failed : Bool} {m : Analyze α} {f : α → Analyze β} {s : State}
  {Q Q' : Bool → α → State → Prop} {R : Bool → β → State → Prop}

lemma silent (h : (m s).2.diagnostics = s.diagnostics) (hQ : Q failed (m s).1 (m s).2) :
    Reports failed m s Q := by
  refine ⟨[], by rw [h, List.append_nil], ?_⟩
  rw [show hasErrors [] = false from rfl, Bool.or_false]
  exact hQ

lemma pure (h : Q failed a s) : Reports failed (Pure.pure a) s Q := silent rfl h

lemma bind (h : Reports failed m s Q)
    (hf : ∀ failed' a s', Q failed' a s' → Reports failed' (f a) s' R) :
    Reports failed (m >>= f) s R := by
  obtain ⟨added, hadded, hQ⟩ := h
  obtain ⟨more, hmore, hR⟩ := hf _ _ _ hQ
  refine ⟨added ++ more, ?_, ?_⟩
  · rw [← List.append_assoc, ← hadded]
    exact hmore
  · rw [hasErrors_append, ← Bool.or_assoc]
    exact hR

lemma imp (h : Reports failed m s Q) (hQ : ∀ failed' a s', Q failed' a s' → Q' failed' a s') :
    Reports failed m s Q' := by
  obtain ⟨added, hadded, h⟩ := h
  exact ⟨added, hadded, hQ _ _ _ h⟩

lemma and {P : α → Prop} (h : Reports failed m s Q) (hP : P (m s).1) :
    Reports failed m s fun failed' a s' => Q failed' a s' ∧ P a := by
  obtain ⟨added, hadded, h⟩ := h
  exact ⟨added, hadded, h, hP⟩

lemma get {f : State → Analyze β} (h : Reports failed (f s) s R) :
    Reports failed (MonadState.get >>= f) s R := h

lemma types {f : TypeTable → Analyze β} (h : Reports failed (f s.types) s R) :
    Reports failed (Analysis.types >>= f) s R := h

end Reports

/-- Neither the switch around a statement nor the number of cleanups changes. -/
structure Stays (s s' : State) : Prop where
  switch : s'.switch = s.switch
  cleanups : s'.cleanups = s.cleanups

lemma Stays.refl (s : State) : Stays s s := ⟨rfl, rfl⟩

lemma Stays.trans (h : Stays s s') (h' : Stays s' s'') : Stays s s'' :=
  ⟨h'.switch.trans h.switch, h'.cleanups.trans h.cleanups⟩

lemma Stays.diagnostics (s : State) (ds : Diagnostics) : Stays s { s with diagnostics := ds } :=
  ⟨rfl, rfl⟩

/-- What holds of the result of a step that leaves switches and cleanups alone, and of whether an error
has been reported. -/
def Tells (failed : Bool) (m : Analyze α) (s : State) (Q : Bool → α → Prop) : Prop :=
  Reports failed m s fun failed' a s' => Stays s s' ∧ Q failed' a

namespace Tells

variable {failed : Bool} {m : Analyze α} {f : α → Analyze β} {s : State}
  {Q Q' : Bool → α → Prop} {R : Bool → β → Prop}

lemma silent (hs : Stays s (m s).2) (h : (m s).2.diagnostics = s.diagnostics)
    (hQ : Q failed (m s).1) : Tells failed m s Q :=
  Reports.silent h ⟨hs, hQ⟩

lemma pure {a : α} (h : Q failed a) : Tells failed (Pure.pure a) s Q := silent (.refl s) rfl h

lemma bind (h : Tells failed m s Q)
    (hf : ∀ failed' a s', Q failed' a → Tells failed' (f a) s' R) : Tells failed (m >>= f) s R :=
  Reports.bind h fun _ _ _ ⟨hs, hQ⟩ =>
    (hf _ _ _ hQ).imp fun _ _ _ ⟨hs', hR⟩ => ⟨hs.trans hs', hR⟩

lemma imp (h : Tells failed m s Q) (hQ : ∀ failed' a, Q failed' a → Q' failed' a) :
    Tells failed m s Q' :=
  Reports.imp h fun _ _ _ ⟨hs, h⟩ => ⟨hs, hQ _ _ h⟩

lemma get {f : State → Analyze β} (h : Tells failed (f s) s R) :
    Tells failed (MonadState.get >>= f) s R := h

lemma types {f : TypeTable → Analyze β} (h : Tells failed (f s.types) s R) :
    Tells failed (Analysis.types >>= f) s R := h

lemma report (tok : Token) : Tells failed (Analysis.report tok c) s fun failed' _ =>
      failed' = (failed || c.severity == .error) := by
  refine ⟨[c.diagnostic s.types tok], rfl, ⟨rfl, rfl⟩, ?_⟩
  cases h : c.severity <;> simp [hasErrors, errorCount, Complaint.diagnostic, h]

lemma stays (h : Tells failed m s Q) (hrun : m s = (a, s')) : Stays s s' := by
  obtain ⟨_, -, hs, -⟩ := h
  rwa [hrun] at hs

end Tells

end CompilerCore.Analysis
