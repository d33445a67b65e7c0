import CompilerCore.Machine.Run
import Mathlib.Computability.StateTransition

/-!
# Runs as sequences of steps

A run with a limit goes through the states that are reached one step at a time.  It ends well when it
reaches a state without an active call, and with a fault when the next instruction raises one.
-/

namespace CompilerCore.Machine.State

open CompilerCore.Code StateTransition

/-- The effect that the innermost call has next. -/
def upcoming (m : Module) (s : State) (frame : Frame) (callers : List Frame) : Except Fault Effect :=
  effect m (s.begin frame callers).stack { frame with pending := none }

/-- What the innermost call performs its next instruction in. -/
def context (m : Module) (s : State) (frame : Frame) (callers : List Frame) (method : Method) :
    Effect.Context where
  module := m
  method
  stack := (s.begin frame callers).stack
  frame := { frame with pending := none }

/-- The state after one more step, unless no call is active or the step faults. -/
def next (m : Module) (s : State) : Option State :=
  match s.frames with
  | [] => none
  | frame :: callers =>
    match s.upcoming m frame callers with
    | .ok e => some ((s.begin frame callers).apply m { frame with pending := none } callers e)
    | .error _ => none

/-- The fault that the next step raises. -/
def fault? (m : Module) (s : State) : Option Fault :=
  match s.frames with
  | [] => none
  | frame :: callers =>
    match s.upcoming m frame callers with
    | .ok _ => none
    | .error fault => some fault

variable {m : Module} {limit fuel : Nat} {s t : State} {fault : Fault}

lemma upcoming_eq_ite {frame : Frame} {method : Method} {i : Instruction}
    (hfound : m.methods[frame.method]? = some method)
    (hi : method.instructions[frame.pc]? = some i) (callers : List Frame) :
    s.upcoming m frame callers =
      if ∀ r ∈ i.registers, frame.place r + 8 ≤ (s.begin frame callers).stack.capacity then
        Effect.of (s.context m frame callers method) i
      else .error (.overrun (Stack.addressOf frame.base)) := by
  have hfetch : fetch m { frame with pending := none } = .ok (method, i) := by
    simp [fetch, hfound, hi]
  rw [upcoming, effect, hfetch]
  rfl

lemma finish_nil (h : s.frames = []) : s.finish m limit fuel = (.ok (), s) := by
  cases fuel <;> simp only [finish, h]

lemma finish_next (h : s.next m = some t) :
    s.finish m limit (fuel + 1) = t.finish m limit fuel := by
  unfold next at h
  rw [finish]
  split at h
  · cases h
  · next frame callers hfs =>
    rw [hfs]
    unfold upcoming at h
    dsimp only
    split at h
    · next e he =>
      obtain rfl := Option.some.inj h
      rw [he]
    · cases h

lemma finish_zero (h : s.next m = some t) : (s.finish m limit 0).1 = .error (.stepLimit limit) := by
  unfold next at h
  rw [finish]
  split at h
  · cases h
  · next frame callers hfs => rw [hfs]

lemma finish_begin (h : s.fault? m = some fault) :
    ∃ frame callers, s.frames = frame :: callers ∧ ∀ limit fuel,
      s.finish m limit (fuel + 1) = (.error fault, s.begin frame callers) := by
  unfold fault? at h
  split at h
  · cases h
  · next frame callers hfs =>
    refine ⟨frame, callers, hfs, fun limit fuel => ?_⟩
    rw [finish, hfs]
    unfold upcoming at h
    dsimp only
    split at h
    · cases h
    · next he =>
      obtain rfl := Option.some.inj h
      rw [he]

lemma finish_fault (h : s.fault? m = some fault) :
    (s.finish m limit (fuel + 1)).1 = .error fault := by
  obtain ⟨frame, callers, -, hfin⟩ := finish_begin h
  rw [hfin]

lemma next_or_fault (m : Module) (s : State) :
    s.frames = [] ∨ (∃ t, s.next m = some t) ∨ ∃ fault, s.fault? m = some fault := by
  unfold next fault?
  split
  · next h => exact .inl h
  · split
    · exact .inr (.inl ⟨_, rfl⟩)
    · exact .inr (.inr ⟨_, rfl⟩)

lemma finish_cases (m : Module) (limit fuel : Nat) (s : State) :
    (s.finish m limit fuel).1 = .error (.stepLimit limit) ∨
    (∃ t, Reaches (next m) s t ∧ t.frames = [] ∧ s.finish m limit fuel = (.ok (), t)) ∨
    ∃ t fault, Reaches (next m) s t ∧ t.fault? m = some fault ∧
      (s.finish m limit fuel).1 = .error fault := by
  induction fuel generalizing s with
  | zero =>
    cases hfs : s.frames with
    | nil => exact .inr (.inl ⟨s, .refl, hfs, finish_nil hfs⟩)
    | cons => exact .inl (by simp only [finish, hfs])
  | succ _ ih =>
    obtain hfs | ⟨t, ht⟩ | ⟨fault, hfault⟩ := next_or_fault m s
    · exact .inr (.inl ⟨s, .refl, hfs, finish_nil hfs⟩)
    · rw [finish_next ht]
      have hhead {u : State} (hu : Reaches (next m) t u) : Reaches (next m) s u :=
        .head (Option.mem_def.2 ht) hu
      obtain h | ⟨u, hu, h⟩ | ⟨u, fault, hu, h⟩ := ih t
      · exact .inl h
      · exact .inr (.inl ⟨u, hhead hu, h⟩)
      · exact .inr (.inr ⟨u, fault, hhead hu, h⟩)
    · exact .inr (.inr ⟨s, fault, .refl, hfault, finish_fault hfault⟩)

/-- A run that ends well has reached its last state, in which no call is active. -/
lemma reaches_of_finish (h : s.finish m limit fuel = (.ok (), t)) :
    Reaches (next m) s t ∧ t.frames = [] := by
  obtain hlimit | ⟨u, hu, hfs, hfin⟩ | ⟨u, fault, -, -, hfault⟩ := finish_cases m limit fuel s
  · simp [h] at hlimit
  · obtain rfl : u = t := by
      rw [hfin] at h
      exact (Prod.mk.inj h).2
    exact ⟨hu, hfs⟩
  · simp [h] at hfault

/-- The steps from one state to another are part of every run that is long enough, and exhaust every
shorter one. -/
lemma finish_of_reaches (h : Reaches (next m) s t) :
    ∃ count, ∀ limit fuel, (count ≤ fuel → s.finish m limit fuel = t.finish m limit (fuel - count)) ∧
      (fuel < count → (s.finish m limit fuel).1 = .error (.stepLimit limit)) := by
  induction h using Relation.ReflTransGen.head_induction_on with
  | refl => exact ⟨0, fun _ _ => ⟨fun _ => rfl, fun h => absurd h (Nat.not_lt_zero _)⟩⟩
  | head hstep _ ih =>
    obtain ⟨count, hcount⟩ := ih
    refine ⟨count + 1, fun limit fuel => ?_⟩
    cases fuel with
    | zero =>
      refine ⟨fun h => absurd h (Nat.not_succ_le_zero _), fun _ => ?_⟩
      exact finish_zero hstep
    | succ fuel =>
      rw [finish_next hstep, Nat.add_sub_add_right]
      exact ⟨fun h => (hcount limit fuel).1 (Nat.le_of_succ_le_succ h),
        fun h => (hcount limit fuel).2 (Nat.lt_of_succ_lt_succ h)⟩

end CompilerCore.Machine.State
