import CompilerCore.Proofs.Code.Functions

/-!
# Cleanup statements

The cleanup statements of a function stand behind its body, where all returns go.  So a call that
returns has entered them, and it returns from their end.  It enters them only once unless they go back
themselves: a return among them, or a jump out of them, enters them again.
-/

namespace CompilerCore.Machine

open CompilerCore.Code StateTransition List

/-! ## What a call performs itself -/

/-- The steps of a call while more than `n` calls are active, with the places of the instructions that
the call above the first `n` performs itself. -/
inductive State.Performs (m : Module) (n : Nat) : State → List Nat → State → Prop where
  | refl (s : State) : Performs m n s [] s
  | own {s t u : State} {f : Frame} {callers : List Frame} {places : List Nat} :
    s.frames = f :: callers → callers.length = n → s.next m = some t → Performs m n t places u →
    Performs m n s (f.pc :: places) u
  | inner {s t u : State} {places : List Nat} :
    n + 1 < s.frames.length → s.next m = some t → Performs m n t places u → Performs m n s places u

/-- A run calls a method, and the call returns after it has performed the instructions at certain
places itself. -/
def State.Calls (m : Module) (limit : Nat) (machine : State) (entry : String)
    (arguments : List UInt64) (callee : Nat) (places : List Nat) : Prop :=
  ∃ start first arguments' s t frame callers,
    machine.Enters m limit entry arguments start first arguments' ∧
    Reaches (State.next m) (start.pushFrame m first arguments') s ∧
    s.frames = frame :: callers ∧ frame.method = callee ∧ frame.pc = 0 ∧
    s.Performs m callers.length places t ∧ t.frames = callers

lemma exists_calls {machine : State} (h : (machine.run m limit entry args).1 = .ok v) :
    ∃ callee places, m.methodIndex? entry = some callee ∧
      machine.Calls m limit entry args callee places := by
  have hperforms {s t : State} (h : Reaches (State.next m) s t) (ht : t.frames = []) :
      ∃ places, s.Performs m 0 places t := by
    induction h using Relation.ReflTransGen.head_induction_on with
    | refl => exact ⟨[], .refl _⟩
    | @head s _ hstep _ ih =>
      obtain ⟨places, hplaces⟩ := ih
      match hfs : s.frames with
      | [] => simp [State.next, hfs] at hstep
      | [f] => exact ⟨f.pc :: places, .own hfs rfl hstep hplaces⟩
      | _ :: _ :: _ => exact ⟨places, .inner (by simp [hfs]) hstep hplaces⟩
  obtain ⟨callee, method, before, after, hindex, hmeth, hcount, hinit, hfin, -⟩ := run_eq_ok h
  obtain ⟨frame, hframe, hcallee, hpc⟩ : ∃ frame,
      (before.pushFrame m callee args).frames = [frame] ∧ frame.method = callee ∧ frame.pc = 0 := by
    rw [State.pushFrame, initializeStatics_frames rfl hinit]
    exact ⟨_, rfl, rfl, rfl⟩
  obtain ⟨hreach, hended⟩ := State.reaches_of_finish hfin
  obtain ⟨places, hplaces⟩ := hperforms hreach hended
  exact ⟨callee, places, hindex, before, callee, args, _, after, frame, [],
    .entry hindex hmeth hcount hinit, .refl, hframe, hcallee, hpc, hplaces, hended⟩

/-- Control may go from one instruction of a method to another. -/
def Follows (method : Method) (pc pc' : Nat) : Prop :=
  pc' = pc + 1 ∨
    ∃ i, method.instructions[pc]? = some i ∧ i.opcode.isBranch = true ∧ Effect.target i = .ok pc'

section

variable {m : Module} (hm : m.Closed) {method : Method} {s t : State} {frame : Frame}
  {callers : List Frame}

include hm

lemma succ_eq_size {k : Nat} (h : m.methods[k]? = some method)
    (hi : method.instructions[pc]? = some i) (hop : i.opcode = .ret) :
    pc + 1 = method.instructions.size := by
  obtain ⟨body, last, hcode, -, hbody⟩ := (closed_of_getElem? hm h).returns
  rw [hcode, Array.getElem?_push] at hi
  split at hi
  · next heq => simp [hcode, heq]
  · exact absurd hop (hbody i (Array.mem_of_getElem? hi))

/-- A step of the innermost call goes on in its method, perhaps below another call, or returns from
the end of the method. -/
lemma next_follows (hframe : frame.Valid m method) (hs : s.frames = frame :: callers)
    (h : s.next m = some t) :
    (∃ f inner, t.frames = inner ++ f :: callers ∧ f.method = frame.method ∧
      Follows method frame.pc f.pc) ∨
    (t.frames = callers ∧ frame.pc + 1 = method.instructions.size) := by
  obtain ⟨i, hi, hok⟩ := upcoming_isOf hm s callers hframe
  simp only [State.next, hs] at h
  split at h
  · next e he =>
    obtain rfl := Option.some.inj h
    cases hok e he with
    | none | write | store | copy => exact .inl ⟨_, [], rfl, rfl, .inl rfl⟩
    | jump hop htgt => exact .inl ⟨_, [], rfl, rfl, .inr ⟨i, hi, hop, htgt⟩⟩
    | call => exact .inl ⟨_, [_], rfl, rfl, .inl rfl⟩
    | leave hop => exact .inr ⟨rfl, succ_eq_size hm hframe.found hi hop⟩
  · cases h

/-- A call that returns performs instructions of its method one behind the other, from the one where
it stands to the last one.  The induction is over the steps of all calls; those of inner calls leave
the place of the call as it is. -/
lemma performs_follows {inner : List Frame} (h : s.Performs m n places t) (hs : s.Valid m)
    (hfs : s.frames = inner ++ frame :: callers) (hn : callers.length = n)
    (hmeth : m.methods[frame.method]? = some method) (hret : t.frames.length = n) :
    places.head? = some frame.pc ∧ places.IsChain (Follows method) ∧
      places.getLast? = some (method.instructions.size - 1) := by
  induction h generalizing frame inner with
  | refl =>
    rw [hfs, length_append, length_cons] at hret
    omega
  | @own _ t _ f _ _ hown hlen hnext hrest ih =>
    obtain rfl : inner = [] := by
      rw [hown] at hfs
      have := congrArg length hfs
      simp only [length_cons, length_append] at this
      exact eq_nil_of_length_eq_zero (by omega)
    obtain ⟨rfl, rfl⟩ := cons.inj (hown.symm.trans hfs)
    obtain ⟨method', hvalid⟩ := hs f (by simp [hown])
    obtain rfl : method' = method := Option.some.inj (hvalid.found.symm.trans hmeth)
    refine ⟨rfl, ?_⟩
    obtain ⟨g, inner, ht, hsame, hfoll⟩ | ⟨ht, hlast⟩ := next_follows hm hvalid hown hnext
    · obtain ⟨hhead, hchain, hlast⟩ := ih (next_valid hm hs hnext) ht (hsame ▸ hmeth) hret
      obtain ⟨rest, rfl⟩ := head?_eq_some_iff.1 hhead
      exact ⟨isChain_cons_cons.2 ⟨hfoll, hchain⟩, by rwa [getLast?_cons_cons]⟩
    · -- The call has returned, so nothing follows.
      have hlen : t.frames.length = n := by rw [ht, hn]
      cases hrest with
      | refl => exact ⟨isChain_singleton _, by simp [← hlast]⟩
      | own hfs =>
        rw [hfs, length_cons] at hlen
        omega
      | inner => omega
  | @inner _ _ _ _ hdeep hnext _ ih =>
    obtain ⟨f, f', others, hold, -, hto⟩ := next_frames hnext
    cases inner with
    | nil =>
      rw [hfs, nil_append, length_cons] at hdeep
      omega
    | cons _ inner =>
      obtain ⟨rfl, rfl⟩ := cons.inj (hold.symm.trans hfs)
      have hvalid := next_valid hm hs hnext
      obtain ht | ⟨g', ht⟩ | ht := hto
      · exact ih hvalid (show _ = (f' :: inner) ++ frame :: callers from ht) hmeth hret
      · exact ih hvalid (show _ = (g' :: f' :: inner) ++ frame :: callers from ht) hmeth hret
      · exact ih hvalid ht hmeth hret

end

/-- A sequence of places that ends behind a certain one has a last part that stays behind it, and is
in front of it before if it never comes back. -/
lemma exists_last_part {places : List Nat} (hne : places ≠ [])
    (hlast : ∀ k ∈ places.getLast?, start ≤ k) :
    ∃ before inside, places = before ++ inside ∧ (∀ k ∈ before.getLast?, k < start) ∧
      (∀ k ∈ inside, start ≤ k) ∧ inside.getLast? = places.getLast? ∧
      (places.IsChain (fun j k => start ≤ j → start ≤ k) → ∀ k ∈ before, k < start) := by
  induction places with
  | nil => exact absurd rfl hne
  | cons j rest ih =>
    cases rest with
    | nil => exact ⟨[], [j], rfl, nofun, by simpa using hlast, rfl, fun _ => nofun⟩
    | cons k rest =>
      rw [getLast?_cons_cons] at hlast ⊢
      obtain ⟨before, inside, hsplit, hfront, hbehind, hsame, hchain⟩ := ih nofun hlast
      cases before with
      | cons _ before =>
        obtain ⟨rfl, rfl⟩ := cons.inj hsplit
        refine ⟨j :: k :: before, inside, rfl, hfront, hbehind, hsame, fun h => ?_⟩
        obtain ⟨hstep, h⟩ := isChain_cons_cons.1 h
        have hrest := hchain h
        refine forall_mem_cons.2 ⟨?_, hrest⟩
        have hk := hrest k (.head _)
        by_contra hj
        exact absurd (hstep (Nat.le_of_not_lt hj)) (Nat.not_le_of_lt hk)
      | nil =>
        obtain rfl : k :: rest = inside := hsplit
        by_cases hj : j < start
        · exact ⟨[j], k :: rest, rfl, by simpa using hj, hbehind, rfl, fun _ => by simpa using hj⟩
        · exact ⟨[], j :: k :: rest, rfl, nofun, forall_mem_cons.2 ⟨Nat.le_of_not_lt hj, hbehind⟩,
            getLast?_cons_cons, fun _ => nofun⟩

end CompilerCore.Machine

namespace CompilerCore

open Code Code.Gen Machine StateTransition

/-! ## Code that stays behind a place -/

namespace Code

/-- A label that stands behind a place of the code or is still to be defined. -/
def Draft.IsBehind (start : Nat) (labels : List String) (d : Draft) (label : String) : Prop :=
  label ∈ labels ∨ ∃ offset, d.labels.find? label = some offset ∧ start ≤ offset

/-- The code from a place on leads to places from there on only, and does not write to the register of
the result. -/
structure Draft.StaysBehind (start : Nat) (result : Option Register) (targets : String → Prop)
    (labels : List String) (d : Draft) : Prop where
  size : start ≤ d.instructions.size
  branches : ∀ entry ∈ d.pendingBranches, start ≤ entry.1 → d.IsBehind start labels entry.2
  targets : ∀ label, targets label → d.IsBehind start labels label
  spares : ∀ (j : Nat) (i : Instruction), start ≤ j → d.instructions[j]? = some i →
    ∀ r ∈ i.destination, r.index ∉ result.map (·.index)
  result : d.returnRegister = result

variable {c : Env} {start : Nat} {result : Option Register} {targets : String → Prop}
  {labels : List String} {d : Draft}

lemma Draft.IsBehind.mono (h : d.IsBehind start labels label)
    (hlabs : ∀ label ∈ labels, label ∈ labels') : d.IsBehind start labels' label :=
  h.imp_left (hlabs label)

lemma Draft.StaysBehind.branch (h : d.StaysBehind start result targets labels)
    (hlabel : d.IsBehind start labels label) (hi : i.destination = none) :
    (d.addBranch i label).StaysBehind start result targets labels where
  size := h.size.trans (by simp)
  branches := List.forall_mem_cons.2 ⟨fun _ => hlabel, h.branches⟩
  targets := h.targets
  spares j k hj hk := by
    rw [Draft.addBranch, Array.getElem?_push] at hk
    split at hk
    · cases hk
      rw [hi]
      simp
    · exact h.spares j k hj hk
  result := h.result

lemma Draft.IsBehind.define (hsize : start ≤ d.instructions.size)
    (hfind : d.labels.find? label = none) (h : d.IsBehind start (label :: labels) other) :
    (d.addLabel label).IsBehind start labels other := by
  by_cases heq : other = label
  · subst heq
    exact .inr ⟨_, Labels.find?_insert .., hsize⟩
  · obtain hmem | ⟨offset, hoff, hle⟩ := h
    · exact .inl ((List.mem_cons.1 hmem).resolve_left heq)
    · exact .inr ⟨offset, (Labels.find?_insert_of_ne heq _).trans hoff, hle⟩

/-- Code that jumps to labels behind a place only, and does not return, stays behind that place. -/
def stayingBehind (c : Env) (start : Nat) (result : Option Register) (hleave : ¬ targets leaveLabel) :
    Directing c fun _ => True where
  spared := result.map (·.index)
  strict := False
  own labels d := d.StaysBehind start result targets labels
  targets := targets
  quiet hd hquiet :=
    { size := hd.size.trans hquiet.size
      branches := fun entry hmem hle => by
        rw [Draft.IsBehind, hquiet.labels]
        exact hd.branches entry (hquiet.branches ▸ hmem) hle
      targets := fun label hlabel => by
        rw [Draft.IsBehind, hquiet.labels]
        exact hd.targets label hlabel
      spares := fun j i hj hi => (hquiet.spares j i hi).elim (hd.spares j i hj) id
      result := hquiet.result.trans hd.result }
  newLabel hd :=
    { size := hd.size
      branches := fun entry hmem hle => (hd.branches entry hmem hle).mono fun _ => .tail _
      targets := fun label hlabel => (hd.targets label hlabel).mono fun _ => .tail _
      spares := hd.spares
      result := hd.result }
  branch hd hlabel _ hi _ := hd.branch (.inl hlabel) hi
  duplicate _ _ _ := trivial
  define hd hfind :=
    { size := hd.size
      branches := fun entry hmem hle => (hd.branches entry hmem hle).define hd.size hfind
      targets := fun label hlabel => (hd.targets label hlabel).define hd.size hfind
      spares := hd.spares
      result := hd.result }
  perm hd hperm :=
    { hd with
      branches := fun entry hmem hle => (hd.branches entry hmem hle).mono fun _ => hperm.mem_iff.1
      targets := fun label hlabel => (hd.targets label hlabel).mono fun _ => hperm.mem_iff.1 }
  jump hd hlabel _ hi _ := hd.branch (hd.targets _ hlabel) hi
  result htargets := absurd htargets hleave
  finish _ _ _ _ := trivial

/-- A draft has the labels of another one where they are, and its register of the result. -/
def Draft.Retains (d0 d : Draft) : Prop :=
  d.returnRegister = d0.returnRegister ∧
    ∀ label offset, d0.labels.find? label = some offset → d.labels.find? label = some offset

/-- Making code from a draft on retains its labels. -/
def retaining (c : Env) (spared : Option Nat) (d0 : Draft) : Directing c fun _ => True where
  spared := spared
  strict := False
  own _ d := d0.Retains d
  targets _ := True
  quiet hd hquiet := ⟨hquiet.result.trans hd.1, hquiet.labels ▸ hd.2⟩
  newLabel hd := hd
  branch hd _ _ _ _ := hd
  duplicate _ _ _ := trivial
  define hd hfind := by
    refine ⟨hd.1, fun other offset hother => ?_⟩
    have hold := hd.2 other offset hother
    refine (Labels.find?_insert_of_ne ?_ _).trans hold
    rintro rfl
    rw [hfind] at hold
    cases hold
  perm hd _ := hd
  jump hd _ _ _ _ := hd
  result _ hd hquiet := ⟨hquiet.result.trans hd.1, hquiet.labels ▸ hd.2⟩
  finish _ _ _ _ := trivial

lemma Draft.StaysBehind.finished (h : d.StaysBehind start result targets []) (hd : d.Sound)
    (hF : Finished code (d.add (returnOf d))) (hsize : code.size = d.instructions.size + 1)
    (hj : start ≤ j) (hi : code[j]? = some i) :
    (∀ r ∈ i.destination, ∀ q ∈ result, r.index ≠ q.index) ∧
      (i.opcode.isBranch = true → ∀ k, Effect.target i = .ok k → start ≤ k) := by
  have hlt : j < (d.add (returnOf d)).instructions.size := by
    obtain ⟨hlt, -⟩ := Array.getElem?_eq_some_iff.1 hi
    rw [hsize] at hlt
    simpa using hlt
  have hother (hnot : ∀ label, (j, label) ∉ d.pendingBranches) :
      (d.add (returnOf d)).instructions[j]? = some i := by
    rw [Array.getElem?_eq_getElem hlt]
    exact (hF.other j _ hnot (Array.getElem?_eq_getElem hlt)).symm.trans hi
  by_cases hold : j < d.instructions.size
  · obtain ⟨i0, hi0⟩ : ∃ i0, d.instructions[j]? = some i0 := ⟨_, Array.getElem?_eq_getElem hold⟩
    have hsame : (d.add (returnOf d)).instructions[j]? = some i0 := by
      rw [Draft.add, Array.getElem?_push, if_neg hold.ne, hi0]
    have hspares (r : Register) (hr : r ∈ i0.destination) (q : Register) (hq : q ∈ result) :
        r.index ≠ q.index := by
      rintro heq
      exact h.spares j i0 hj hi0 r hr (heq ▸ Option.mem_map_of_mem _ hq)
    by_cases hwaits : ∃ label, (j, label) ∈ d.pendingBranches
    · obtain ⟨label, hmem⟩ := hwaits
      obtain ⟨offset, hoff, hcode⟩ := hF.branch j label i0 hmem hsame
      obtain rfl := Option.some.inj (hi.symm.trans hcode)
      refine ⟨hspares, fun _ k hk => ?_⟩
      obtain hmem | ⟨offset', hoffset', hle⟩ := h.branches _ hmem hj
      · cases hmem
      · obtain rfl : offset' = offset := Option.some.inj (hoffset'.symm.trans hoff)
        cases hk
        exact hle
    · rw [not_exists] at hwaits
      obtain rfl := Option.some.inj (hsame.symm.trans (hother hwaits))
      refine ⟨hspares, fun hbr => absurd ((hd.branches j i0 hi0).1 hbr) ?_⟩
      exact not_exists.2 hwaits
  · have hnot (label : String) (hmem : (j, label) ∈ d.pendingBranches) : False :=
      hold (hd.pending _ hmem)
    obtain rfl : returnOf d = i := by
      have := hother hnot
      rw [Draft.add, Array.getElem?_push, if_pos (by simp at hlt; omega)] at this
      exact Option.some.inj this
    exact ⟨by rintro _ ⟨⟩, by rintro ⟨⟩⟩

end Code

/-! ## Functions with cleanup statements -/

/-- The statements do not return, and their jumps lead to labels among them. -/
def Stmt.StaysInside (s : Stmt) : Prop :=
  s.All (Stmt.Jumps fun label => label ∈ s.codeLabels ∧ label ≠ leaveLabel)

instance (s : Stmt) : Decidable s.StaysInside :=
  inferInstanceAs (Decidable (s.All _))

/-- The code of the cleanup statements stands from a place on to the return at the end, which returns
the value of a register. -/
structure Code.Method.CleansUp (c : Env) (cleanup : Stmt) (start : Nat) (result : Option Register)
    (method : Method) : Prop where
  label : method.labels.find? leaveLabel = some start
  start_lt : start < method.instructions.size
  code : ∃ d d', d.instructions.size = start ∧ stmt c cleanup false d = .ok ((), d') ∧
    d'.returnRegister = result ∧ Finished method.instructions (d'.add (returnOf d')) ∧
    method.instructions.size = d'.instructions.size + 1

namespace Code.Gen

variable {c : Env}

lemma resultRegister_fresh (hnone : d.returnRegister = none)
    (h : resultRegister c type d = .ok ((), d')) :
    d'.storage = d.storage ∧ ∀ r ∈ d'.returnRegister, d.registerCount ≤ r.index := by
  obtain ⟨_, d1, hmodify, h⟩ := bind_eq_ok h
  cases hmodify
  split at h
  · cases h
    exact ⟨rfl, by rintro _ ⟨⟩; exact le_rfl⟩
  · split at h
    · cases h
      exact ⟨rfl, by rw [hnone]; exact fun _ => nofun⟩
    · cases h
      exact ⟨rfl, by rintro _ ⟨⟩; exact le_rfl⟩

lemma resting_retains (c : Env) {d : Draft} (hd : d.Sound) {spared : Option Nat}
    (hbound : ∀ k ∈ spared, k < d.registerCount) (hapart : ∀ entry ∈ d.storage, entry.2.Avoids spared)
    (labels : List String) : Resting (retaining c spared d) [] labels d where
  own := ⟨rfl, fun _ _ => id⟩
  stores := nofun
  sound := hd
  bound := hbound
  apart := hapart
  held := nofun

lemma avoids_of_hasStorage {d : Draft} (h : d.HasStorage s)
    (hspared : ∀ k ∈ spared, d.registerCount ≤ k) : s.Avoids spared := by
  cases s with
  | register r | indirect r => exact fun hmem => absurd (hspared _ hmem) (Nat.not_le_of_lt h)
  | block | static => trivial

lemma function_cleansUp (hcleanup : cleanup? f.body = some cleanup) {name : String}
    (hstat : statics.Sound) {method : Method}
    (h : Gen.method statics name (function c f) = .ok (method, statics')) :
    ∃ start result, method.CleansUp c cleanup start result ∧ (cleanup.StaysInside →
      ∀ j i, start ≤ j → method.instructions[j]? = some i →
        (∀ r ∈ i.destination, ∀ q ∈ result, r.index ≠ q.index) ∧
        (i.opcode.isBranch = true → ∀ k, Effect.target i = .ok k → start ≤ k)) := by
  obtain ⟨⟨_, dF⟩, hrun, h⟩ := ok_of_bind h
  obtain ⟨method', hmeth, h⟩ := ok_of_bind h
  cases h
  obtain ⟨code, hcode, rfl⟩ := toMethod_eq_ok hmeth
  have hrun : function c f { name, statics } = .ok ((), dF) := hrun
  obtain ⟨_, d1, hmodify, hrun⟩ := bind_eq_ok hrun
  cases hmodify
  obtain ⟨_, d2, hparams, hrun⟩ := bind_eq_ok hrun
  obtain ⟨_, d3, hres, hrun⟩ := bind_eq_ok hrun
  obtain ⟨_, d4, hbody, hrun⟩ := bind_eq_ok hrun
  rw [hcleanup] at hrun
  obtain ⟨_, d5, hleave, hrun⟩ := bind_eq_ok hrun
  obtain ⟨_, d6, hstmt, hrun⟩ := bind_eq_ok hrun
  obtain rfl : d6.add (returnOf d6) = dF := by
    cases hrun
    rfl
  -- The register of the result is none of those in which parameters are.
  have hd1 : ({ name, statics, addressTaken := addressTaken f.body } : Draft).Sound :=
    { empty_sound name hstat with }
  have h2 := (parameters_ends (D := retaining c none _) (fun _ _ _ => trivial) _
    (resting_retains c hd1 (by rintro _ ⟨⟩) (List.forall_mem_nil _) [])).2 _ _ hparams
  obtain ⟨hstor, hfresh⟩ := resultRegister_fresh h2.own.1 hres
  obtain ⟨-, hd3⟩ := resultRegister_safe c f.returnType h2.sound _ _ hres
  have hbound : ∀ k ∈ d3.returnRegister.map (·.index), k < d3.registerCount := by
    intro k hk
    obtain ⟨r, hr, rfl⟩ := Option.mem_map.1 hk
    exact hd3.result r hr
  have hapart : ∀ entry ∈ d3.storage, entry.2.Avoids (d3.returnRegister.map (·.index)) := by
    intro entry hentry
    refine avoids_of_hasStorage (h2.sound.storage entry (hstor ▸ hentry)) fun k hk => ?_
    obtain ⟨r, hr, rfl⟩ := Option.mem_map.1 hk
    exact hfresh r hr
  -- Neither the body nor the cleanup statements give it to a variable.
  have h4 := (stmt_ends f.body (passes_any _) (clearsAll_any False.elim []) true d3
    (resting_retains c hd3 hbound hapart (f.body.codeLabels ++ []))).2 _ _ hbody
  obtain ⟨-, rfl⟩ := defineLabel_eq_ok hleave
  have hd5 := addLabel_sound h4.sound leaveLabel
  have h5 := resting_retains c hd5 h4.bound h4.apart (cleanup.codeLabels ++ [])
  have h6 := (stmt_ends cleanup (passes_any _) (clearsAll_any False.elim []) false _ h5).2 _ _ hstmt
  have hresult6 : d6.returnRegister = d3.returnRegister := h6.own.1.trans h4.own.1
  have hF : Finished code (d6.add (returnOf d6)) := finished_of_resolveBranches h6.sound.ordered hcode
  have hsize : code.size = d6.instructions.size + 1 := by simpa using resolveBranches_size hcode
  have hlabel : d6.labels.find? leaveLabel = some d4.instructions.size :=
    h6.own.2 _ _ (Labels.find?_insert ..)
  have hle : d4.instructions.size ≤ d6.instructions.size := h6.sound.labels _ (mem_of_lookup hlabel)
  refine ⟨d4.instructions.size, d3.returnRegister,
    ⟨hlabel, hsize ▸ Nat.lt_succ_of_le hle, d4.addLabel leaveLabel, d6, rfl, hstmt, hresult6, hF, hsize⟩,
    fun hstays j i hj hi => ?_⟩
  have hstart : (d4.addLabel leaveLabel).StaysBehind d4.instructions.size d3.returnRegister
      (fun label => label ∈ cleanup.codeLabels ∧ label ≠ leaveLabel) (cleanup.codeLabels ++ []) := by
    refine ⟨le_rfl, fun entry hmem hle => ?_, fun label hlabel => ?_, fun j i hj hi => ?_, h4.own.1⟩
    · exact absurd (hd5.pending entry hmem) (Nat.not_lt_of_le hle)
    · exact .inl (List.mem_append_left _ hlabel.1)
    · exact absurd (Array.getElem?_eq_some_iff.1 hi).1 (Nat.not_lt_of_le hj)
  have hbehind := (stmt_ends (D := stayingBehind c _ _ fun h => h.2 rfl) cleanup
    (hstays.mono fun s hs => ⟨fun _ _ => trivial, hs⟩) (clearsAll_any False.elim []) false _
    { h5 with own := hstart }).2 _ _ hstmt
  exact hbehind.own.finished h6.sound hF hsize hj hi

end Code.Gen

/-- A variable `count` and two functions whose cleanup statements add to it, one of which returns from
there while `count < 3`. -/
def closings : Program × Session :=
  (Session.start {}).build "closings" do
    let _ ← Build.global "count" (some TypeId.i32) (some (← Demo.int 0))
    let rise (amount : Int64) : Build Stmt := do
      let sum ← Demo.binary (.arith .add) (← Demo.ident "count") (← Demo.int amount)
      Demo.perform (← Demo.assign (← Demo.ident "count") sum)
    let closing (low : Build Stmt) : Build Stmt := do
      let body ← Build.block do
        let first ← rise 1
        let isLow ← Demo.binary (.compare .lt) (← Demo.ident "count") (← Demo.int 3)
        let low ← low
        return [first, ← Build.stmt (.branch · isLow low none)]
      Build.stmt (.cleanup · body)
    let _ ← Build.function "once" TypeId.i32 [{ name := "n", type := TypeId.i32 }] do
      let cleanup ← closing (rise 10)
      let isPositive ← Demo.binary (.compare .gt) (← Demo.ident "n") (← Demo.int 0)
      let early ← Demo.giveBack (← Demo.ident "count")
      return [cleanup, ← Build.stmt (.branch · isPositive early none),
        ← Demo.giveBack (← Demo.ident "n")]
    let _ ← Build.function "again" TypeId.void [] do
      return [← closing (Build.stmt (.ret · none)), ← Build.stmt (.ret · none)]
    Build.function "main" TypeId.i32 [] do
      let call ← Demo.perform (← Build.expr (.call · "again" none []))
      return [call, ← Demo.giveBack (← Demo.ident "count")]

def acceptedClosings : Analysis.Outcome := closings.1.analyze {} closings.2.types []

def loweredClosings : Program := (acceptedClosings.program.lower acceptedClosings.types {}).2

/-- Cleanup statements are entered on the way to every return: a call that returns has performed
instructions of theirs last, from there to the end of the method.  If they neither return nor jump out,
the call has entered them only once, and nothing behind their beginning writes to the register of the
result. -/
theorem Program.cleanup_entered {p : Program} {types : TypeTable} {name : String} {m : Module}
    (h : p.compile types name = .ok m) {f : Function}
    (hf : p.functions.find? (·.name == f.name) = some f) (hname : f.name ≠ staticInitializer)
    {cleanup : Stmt} (hcleanup : cleanup? f.body = some cleanup) :
    ∃ callee method start result, m.methodIndex? f.name = some callee ∧
      m.methods[callee]? = some method ∧
      method.CleansUp { scopes := p.scopes, types } cleanup start result ∧
      (cleanup.StaysInside → ∀ j i, start ≤ j → method.instructions[j]? = some i →
        ∀ r ∈ i.destination, ∀ q ∈ result, r.index ≠ q.index) ∧
      ∀ limit machine entry arguments places,
        State.Calls m limit machine entry arguments callee places →
        ∃ body inside, places = body ++ inside ∧ (∀ k ∈ body.getLast?, k < start) ∧
          (∀ k ∈ inside, start ≤ k) ∧ inside.getLast? = some (method.instructions.size - 1) ∧
          (cleanup.StaysInside → ∀ k ∈ body, k < start) := by
  have hm := compile_closed h
  obtain ⟨callee, method, statics, statics', hindex, hmethod, hstatics, -, hmake⟩ :=
    compile_function h hf hname
  obtain ⟨start, result, hcleans, hstays⟩ := function_cleansUp hcleanup hstatics hmake
  refine ⟨callee, method, start, result, hindex, hmethod, hcleans,
    fun hinside j i hj hi => (hstays hinside j i hj hi).1, ?_⟩
  rintro limit machine entry arguments places
    ⟨before, first, arguments', s, t, frame, callers, henters, hreach, hframes, rfl, -, hperforms, rfl⟩
  obtain ⟨hvalid, method', hmethod', -⟩ := enters_valid hm henters
  have hs := reaches_valid hm (pushFrame_valid hm hmethod' hvalid arguments') hreach
  obtain ⟨hhead, hchain, hlast⟩ := performs_follows hm hperforms hs
    (show s.frames = [] ++ frame :: t.frames from hframes) rfl hmethod rfl
  have hne : places ≠ [] := by
    rintro rfl
    cases hhead
  have hle : ∀ k ∈ places.getLast?, start ≤ k := by
    rw [hlast]
    rintro _ ⟨⟩
    exact Nat.le_sub_one_of_lt hcleans.start_lt
  obtain ⟨body, inside, hsplit, hfront, hbehind, hsame, honce⟩ := exists_last_part hne hle
  refine ⟨body, inside, hsplit, hfront, hbehind, hsame.trans hlast, fun hinside => honce ?_⟩
  refine hchain.imp fun j k hfollows hj => ?_
  obtain rfl | ⟨i, hi, hbranch, htarget⟩ := hfollows
  · exact hj.trans (Nat.le_succ j)
  · exact (hstays hinside j i hj hi).2 hbranch k htarget

/-- A run of `once` enters the cleanup statements once. -/
theorem Program.cleanup_entered_once : ∃ m f cleanup callee start places body inside,
    loweredClosings.compile acceptedClosings.types "closings" = .ok m ∧
    loweredClosings.functions.find? (·.name == "once") = some f ∧ cleanup? f.body = some cleanup ∧
    cleanup.StaysInside ∧ m.methodIndex? "once" = some callee ∧
    (State.start 64).Calls m 100 "once" [1] callee places ∧ places = body ++ inside ∧
    (∀ k ∈ body, k < start) ∧ (∀ k ∈ inside, start ≤ k) ∧ inside ≠ [] := by
  obtain ⟨m, hm, hrun⟩ : ∃ m, loweredClosings.compile acceptedClosings.types "closings" = .ok m ∧
      ((State.start 64).run m 100 "once" [1]).1 = .ok 0 := by
    decide +kernel
  obtain ⟨f, hf, hname, cleanup, hcleanup, hstays⟩ :
      ∃ f, loweredClosings.functions.find? (·.name == "once") = some f ∧ f.name = "once" ∧
        ∃ cleanup, cleanup? f.body = some cleanup ∧ cleanup.StaysInside := by
    decide +kernel
  obtain ⟨callee, places, hindex, hcalls⟩ := exists_calls hrun
  obtain ⟨callee', method, start, result, hindex', -, -, -, hentered⟩ :=
    cleanup_entered hm (by rw [hname]; exact hf) (by rw [hname]; decide) hcleanup
  obtain rfl : callee = callee' := by
    rw [hname, hindex] at hindex'
    exact Option.some.inj hindex'
  obtain ⟨body, inside, hsplit, -, hbehind, hlast, hfront⟩ := hentered _ _ _ _ _ hcalls
  refine ⟨m, f, cleanup, callee, start, places, body, inside, hm, hf, hcleanup, hstays,
    hindex, hcalls, hsplit, hfront hstays, hbehind, ?_⟩
  rintro rfl
  cases hlast

/-- The cleanup statements of `again` are entered three times in one call. -/
theorem Program.cleanup_entered_again : acceptedClosings.result = .ok 1 ∧
    ∃ m, loweredClosings.compile acceptedClosings.types "closings" = .ok m ∧
      ((State.start 64).run m 100 "main" []).1 = .ok 3 := by
  decide +kernel

end CompilerCore
