import CompilerCore.Proofs.Machine.Entry

/-!
# What a run depends on

A step reads registers, which belong to the frame of the innermost call, and the memory below the
extent, and it writes only there.  So two machines take the same steps as long as their memories hold
the same bytes wherever they are read, however large the memories are.

The statics are cleared when a run starts and a frame when its call does.  The bytes between them are
not: a frame starts on a multiple of eight, and what precedes it may end earlier.

* `run_agrees` — two runs of one entry point, on machines with different memories.
-/

namespace CompilerCore.Machine

open CompilerCore.Code StateTransition List State Build

/-! ## Stacks -/

/-- Two stacks of one extent with the same bytes at certain places. -/
structure Stack.Agrees (live : Nat → Prop) (a b : Stack) : Prop where
  extent : b.extent = a.extent
  left : a.extent ≤ a.bytes.size ∧ 0 < a.bytes.size
  right : a.extent ≤ b.bytes.size ∧ 0 < b.bytes.size
  bytes : ∀ j, live j → byteAt b.bytes j = byteAt a.bytes j

namespace Stack

variable {live live' : Nat → Prop} {a b : Stack} {offset : Nat}

namespace Agrees

/-! ### Writing -/

lemma setByte (h : a.Agrees live b) (hoff : offset < a.extent) (value : UInt8) :
    Agrees live { a with bytes := Machine.setByte a.bytes offset value }
      { b with bytes := Machine.setByte b.bytes offset value } where
  extent := h.extent
  left := by simpa using h.left
  right := by simpa using h.right
  bytes j hj := by
    have hleft : offset < a.bytes.size := hoff.trans_le h.left.1
    have hright : offset < b.bytes.size := hoff.trans_le h.right.1
    simp only [byteAt_setByte, hleft, hright, h.bytes j hj]

variable {width : Nat}

section

variable (h : a.Agrees live b)
include h

lemma writeBytes (hfit : offset + width ≤ a.extent) (value : UInt64) :
    Agrees live { a with bytes := Machine.writeBytes a.bytes offset value width }
      { b with bytes := Machine.writeBytes b.bytes offset value width } := by
  induction width generalizing a b offset value with
  | zero => exact h
  | succ _ ih => exact ih (h.setByte (by omega) _) (by dsimp only; omega) _

lemma fill (hfit : offset + data.length ≤ a.extent) :
    (a.fill offset data).Agrees live (b.fill offset data) := by
  induction data generalizing a b offset with
  | nil => exact h
  | cons _ _ ih =>
    rw [length_cons] at hfit
    exact ih (h.setByte (by omega) _) (by dsimp only; omega)

lemma setSlot (hfit : offset + 8 ≤ a.extent) (value : UInt64) :
    (a.setSlot offset value).Agrees live (b.setSlot offset value) :=
  h.writeBytes hfit value

lemma put (hfit : offset + width ≤ a.extent) (value : UInt64) :
    (a.put offset width value).Agrees live (b.put offset width value) := by
  refine h.writeBytes ?_ value
  unfold clip
  omega

lemma passArguments (hfit : offset + arguments.length * 8 ≤ a.extent) :
    (passArguments arguments a offset).Agrees live
      (passArguments arguments b offset) := by
  induction arguments generalizing a b offset with
  | nil => exact h
  | cons value _ ih =>
    rw [length_cons] at hfit
    refine ih (h.setSlot (by omega) value) ?_
    rw [extent_setSlot]
    omega

end

/-! ### Reading -/

lemma slot (h : a.Agrees live b) (hlive : ∀ k < 8, live (offset + k)) :
    b.slot offset = a.slot offset :=
  readBytes_congr le_rfl fun k hk => h.bytes _ (hlive k hk)

lemma span (h : a.Agrees live b) (address : UInt64) (size : Nat) :
    b.span address size = a.span address size := by
  unfold Stack.span locate
  rw [h.extent]

lemma spans (h : a.Agrees live b) (target source : UInt64) (size : Nat) :
    b.spans target source size = a.spans target source size := by
  unfold Stack.spans locate
  rw [h.extent]

lemma read (h : a.Agrees live b) {address : UInt64}
    (hlive : ∀ offset, a.span address width = .ok offset → ∀ j, offset ≤ j → j < offset + width → live j) :
    b.read address width = a.read address width := by
  unfold Stack.read
  rw [h.span]
  cases hspan : a.span address width with
  | error => rfl
  | ok offset =>
    refine congrArg Except.ok (readBytes_congr (min_le_right _ _) fun k hk => ?_)
    refine h.bytes _ (hlive offset hspan _ (Nat.le_add_right ..) ?_)
    unfold clip at hk
    omega

lemma move (h : a.Agrees live b) (htgt : target + size ≤ a.extent) (hsrc : source + size ≤ a.extent)
    (hlive : ∀ j, source ≤ j → j < source + size → live j) :
    (a.move target source size).Agrees live (b.move target source size) := by
  have hleft : min size (a.bytes.size - source) = size := by
    have := h.left.1
    omega
  have hright : min size (b.bytes.size - source) = size := by
    have := h.right.1
    omega
  have hslice : sliceBytes b.bytes source size = sliceBytes a.bytes source size := by
    unfold sliceBytes
    rw [hleft, hright]
    refine List.map_congr_left fun k hk => h.bytes _ (hlive _ (Nat.le_add_right ..) ?_)
    rw [List.mem_range] at hk
    omega
  unfold Stack.move
  rw [hslice]
  refine h.fill ?_
  simpa [sliceBytes, hleft] using htgt

/-! ### The extent -/

lemma setExtent (h : a.Agrees live b) (extent : Nat) (hlive : ∀ j, live' j → live j) :
    (a.setExtent extent).Agrees live' (b.setExtent extent) where
  extent := rfl
  left := ⟨extent_le_size h.left.2 _, h.left.2.trans_le (size_le_size_setExtent _ _)⟩
  right := ⟨extent_le_size h.right.2 _, h.right.2.trans_le (size_le_size_setExtent _ _)⟩
  bytes j hj := by simp only [Stack.setExtent, byteAt_padBytes, h.bytes j (hlive j hj)]

end Agrees

lemma agrees_of_clear (ha : 0 < a.bytes.size) (hb : 0 < b.bytes.size) (base size : Nat)
    (h : ∀ j, live j → base ≤ j ∧ j < base + size ∨ byteAt b.bytes j = byteAt a.bytes j) :
    ((a.setExtent (base + size)).zero base size).Agrees live
      ((b.setExtent (base + size)).zero base size) where
  extent := rfl
  left := by
    simp only [zero, size_zeroBytes]
    exact ⟨extent_le_size ha _, ha.trans_le (size_le_size_setExtent _ _)⟩
  right := by
    simp only [zero, size_zeroBytes]
    exact ⟨extent_le_size hb _, hb.trans_le (size_le_size_setExtent _ _)⟩
  bytes j hj := by
    simp only [zero, byteAt_zeroBytes]
    split
    · rfl
    · next hout =>
      simp only [setExtent, byteAt_padBytes]
      exact (h j hj).resolve_left hout

end Stack

/-! ## Effects -/

namespace Effect

/-- The places of memory that an instruction reads, apart from its registers. -/
inductive Reads (c : Context) (i : Instruction) (j : Nat) : Prop where
  | load {address : UInt64} {offset : Nat} : i.opcode = .load → source c i 0 = .ok address →
    c.stack.span (address + shift i) i.type.width = .ok offset → offset ≤ j →
    j < offset + i.type.width → Reads c i j
  | copy {target source size : Nat} : of c i = .ok (.copy target source size) → source ≤ j →
    j < source + size → Reads c i j

variable {c : Context} {i : Instruction} {live : Nat → Prop} {b : Stack}

lemma of_agrees (h : c.stack.Agrees live b)
    (hregisters : ∀ r ∈ i.registers, ∀ k < 8, live (c.frame.place r + k))
    (hreads : ∀ j, Reads c i j → live j) : of { c with stack := b } i = of c i := by
  have hregister (r : Register) (hr : r ∈ i.registers) :
      Context.register { c with stack := b } r = c.register r :=
    h.slot (hregisters r hr)
  have hmem (r : Register) (hr : r ∈ i.sources) : r ∈ i.registers := mem_append_right _ hr
  have hsources : i.sources.map (Context.register { c with stack := b }) = i.sources.map c.register :=
    map_congr_left fun r hr => hregister r (hmem r hr)
  have hsource (k : Nat) : source { c with stack := b } i k = source c i k := by
    unfold source
    rw [← getElem?_map, ← getElem?_map, hsources]
  have hhead : i.sources.head?.map (Context.register { c with stack := b }) =
      i.sources.head?.map c.register := by
    rw [← head?_map, ← head?_map, hsources]
  have hoperand : operand { c with stack := b } i = operand c i := by
    unfold operand
    rw [hsource]
  have hmerge (value : UInt64) :
      mergeDestination { c with stack := b } i value = mergeDestination c i value := by
    unfold mergeDestination destination
    cases hdestination : i.destination with
    | none => rfl
    | some r =>
      have hr : r ∈ i.registers := by simp [Instruction.registers, hdestination]
      exact congrArg (fun old => Except.ok (write r (Word.merge old value i.type.width)))
        (hregister r hr)
  cases hop : i.opcode with
  | load =>
    simp only [of, hop, hsource]
    cases haddress : source c i 0 with
    | error => rfl
    | ok address =>
      have hread : b.read (address + shift i) i.type.width = c.stack.read (address + shift i) _ :=
        h.read fun offset hoffset j hle hlt => hreads j (.load hop haddress hoffset hle hlt)
      exact congrArg (· >>= fun value => toDestination i (extend value i.type)) hread
  | _ => simp only [of, hop, hsource, hsources, hhead, hoperand, hmerge, h.span,
      h.spans]

end Effect

/-! ## States -/

/-- A place of the statics or of the frame of an active call. -/
def Owned (m : Module) : List Frame → Nat → Prop
  | [], j => j < m.staticSize.toNat
  | f :: callers, j => f.base ≤ j ∧ j < f.stop m ∨ Owned m callers j

/-- The next step reads no place between the frames. -/
def State.ReadsOwn (m : Module) (s : State) : Prop :=
  ∀ f callers method i, s.frames = f :: callers → m.methods[f.method]? = some method →
    method.instructions[f.pc]? = some i →
      ∀ j, Effect.Reads (s.context m f callers method) i j → Owned m s.frames j

/-- Two states that differ only in their memories, which hold the same bytes in the statics and
frames, or everywhere. -/
structure State.Agrees (m : Module) (everywhere : Prop) (s t : State) : Prop where
  frames : t.frames = s.frames
  result : t.result = s.result
  steps : t.steps = s.steps
  stack : s.stack.Agrees (fun j => everywhere ∨ Owned m s.frames j) t.stack

section

variable {m : Module} {everywhere : Prop} {s t : State} {f : Frame} {callers : List Frame}
  {method : Method} {i : Instruction} {arguments : List UInt64} {callee limit fuel : Nat}

lemma Frame.stop_eq (h : m.methods[f.method]? = some method) :
    f.stop m = f.base + method.frameSize.toNat := by
  rw [Frame.stop, h]
  rfl

lemma fills_agree {a : Stack} (h : a.Agrees live b) {slots : List Static}
    (hfit : ∀ slot ∈ slots, slot.offset.toNat + slot.data.length ≤ a.extent) :
    (slots.foldl (fun stack slot => stack.fill slot.offset.toNat slot.data) a).Agrees live
      (slots.foldl (fun stack slot => stack.fill slot.offset.toNat slot.data) b) := by
  induction slots generalizing a b with
  | nil => exact h
  | cons slot slots ih =>
    rw [forall_mem_cons] at hfit
    exact ih (h.fill hfit.1) hfit.2

lemma reset_agrees (hstat : m.StaticsApart) (hs : 0 < s.stack.bytes.size)
    (ht : 0 < t.stack.bytes.size)
    (hbytes : everywhere → ∀ j, byteAt t.stack.bytes j = byteAt s.stack.bytes j) :
    (s.reset m).Agrees m everywhere (t.reset m) := by
  have hclear := Stack.agrees_of_clear hs ht 0 m.staticSize.toNat
    fun j (hj : everywhere ∨ Owned m [] j) => hj.elim (fun heverywhere => .inr (hbytes heverywhere j))
      fun howned => .inl ⟨j.zero_le, (Nat.zero_add _).symm ▸ howned⟩
  rw [Nat.zero_add] at hclear
  refine ⟨rfl, rfl, rfl, fills_agree hclear fun slot hslot => ?_⟩
  have hbelow := (hstat.below _ (mem_map_of_mem hslot)).2
  have hdata := hstat.data slot hslot
  simp only [Region.stop, Extent.region, Static.extent] at hbelow
  show _ ≤ m.staticSize.toNat
  omega

/-! ## Limits -/

/-- A module whose statics and frames end on multiples of eight, so that nothing lies between them. -/
def Packed (m : Module) : Prop :=
  8 ∣ m.staticSize.toNat ∧ ∀ method ∈ m.methods, 8 ∣ method.frameSize.toNat

instance (m : Module) : Decidable (Packed m) := by
  unfold Packed
  infer_instance

/-- Every frame starts on the first multiple of eight that is not below the end of its caller's. -/
def State.Rounded (s : State) : Prop := ∀ f ∈ s.frames, f.base = (f.callerExtent + 7) / 8 * 8

lemma next_rounded (hs : s.Rounded) (h : s.next m = some t) : t.Rounded := by
  obtain ⟨f, callers, hfs, hcases⟩ := next_cases h
  rw [State.Rounded, hfs, forall_mem_cons] at hs
  obtain ⟨pc, pending, hto, -⟩ | ⟨pc, pending, u, callee, arguments, rfl, hto, -⟩ | ⟨_, hto, -⟩ := hcases
  · rw [State.Rounded, hto]
    exact forall_mem_cons.2 hs
  · show ∀ f ∈ _ :: u.frames, _
    rw [hto]
    exact forall_mem_cons.2 ⟨rfl, forall_mem_cons.2 hs⟩
  · rw [State.Rounded, hto]
    exact hs.2

lemma reaches_rounded (hs : s.Rounded) (h : Reaches (next m) s t) : t.Rounded := by
  induction h with
  | refl => exact hs
  | tail _ hstep ih => exact next_rounded ih hstep

/-- Without gaps, all memory below the extent belongs to the statics or to a frame. -/
lemma owned_of_packed (hm : Packed m) (hstacked : FramesStacked m fs)
    (hvalid : ∀ f ∈ fs, ∃ method, f.Valid m method)
    (hrounded : ∀ f ∈ fs, f.base = (f.callerExtent + 7) / 8 * 8) :
    8 ∣ top m fs ∧ ∀ j < top m fs, Owned m fs j := by
  induction fs with
  | nil => exact ⟨hm.1, fun _ => id⟩
  | cons f callers ih =>
    rw [forall_mem_cons] at hvalid hrounded
    obtain ⟨hextent, -, hcallers⟩ := hstacked
    obtain ⟨htop, hbelow⟩ := ih hcallers hvalid.2 hrounded.2
    have hbase : f.base = top m callers := by
      omega
    obtain ⟨⟨method, hframe⟩, -⟩ := hvalid
    have hbytes := hm.2 method (Array.mem_of_getElem? hframe.found)
    have hstop := Frame.stop_eq hframe.found
    refine ⟨?_, fun j hj => ?_⟩
    · show 8 ∣ f.stop m
      omega
    · by_cases hle : f.base ≤ j
      · exact .inl ⟨hle, hj⟩
      · exact .inr (hbelow j (by omega))

/-! ## Two states -/

section

variable (hwords : ∀ method ∈ m.methods, method.frameBytes < 2 ^ 64)
include hwords

lemma Frame.place_le_stop (h : m.methods[f.method]? = some method)
    (hr : r.index < method.registerCount) : f.base ≤ f.place r ∧ f.place r + 8 ≤ f.stop m := by
  rw [Frame.stop_eq h, Method.toNat_frameSize (hwords method (Array.mem_of_getElem? h)), Frame.place]
  omega

lemma pushFrame_agrees (h : s.Agrees m everywhere t) (hcallee : m.methods[callee]? = some method)
    (hcount : arguments.length ≤ method.registerCount) :
    (s.pushFrame m callee arguments).Agrees m everywhere (t.pushFrame m callee arguments) := by
  unfold pushFrame
  rw [h.stack.extent, h.frames]
  extract_lets callerExtent base size left right
  have hsize : size = method.registerCount * 8 + method.blockBytes.toNat := by
    simp only [size, hcallee]
    exact Method.toNat_frameSize (hwords method (Array.mem_of_getElem? hcallee))
  refine ⟨rfl, h.result, h.steps, Stack.Agrees.passArguments ?_ ?_⟩
  · refine Stack.agrees_of_clear h.stack.left.2 h.stack.right.2 _ _ fun j hj => ?_
    obtain heverywhere | hframe | howned := hj
    · exact .inr (h.stack.bytes j (.inl heverywhere))
    · exact .inl hframe
    · exact .inr (h.stack.bytes j (.inr howned))
  · show base + arguments.length * 8 ≤ base + size
    omega

lemma begin_agrees (h : s.Agrees m everywhere t) (hs : s.Stacked m)
    (hfs : s.frames = f :: callers) (hframe : f.Valid m method) :
    (s.begin f callers).Agrees m everywhere (t.begin f callers) := by
  unfold begin
  cases hpend : f.pending with
  | none => exact ⟨h.frames, h.result, congrArg (· + 1) h.steps, h.stack⟩
  | some r =>
    have hplace := (Frame.place_le_stop hwords hframe.found (hframe.pending r hpend)).2
    have hextent := hs.extent
    have hstack := h.stack
    rw [hfs] at hextent hstack
    refine ⟨rfl, h.result, congrArg (· + 1) h.steps, ?_⟩
    rw [h.result]
    exact hstack.setSlot (hplace.trans hextent.ge) _

variable (hm : m.Closed)
include hm

/-- All registers of an active call lie in memory. -/
lemma upcoming_eq (hs : s.Stacked m) (hfs : s.frames = f :: callers)
    (hfound : m.methods[f.method]? = some method) (hi : method.instructions[f.pc]? = some i) :
    s.upcoming m f callers = Effect.of (s.context m f callers method) i := by
  refine (upcoming_eq_ite hfound hi callers).trans (if_pos fun r hr => ?_)
  have hwindow := ((closed_of_getElem? hm hfound).fits i (Array.mem_of_getElem? hi)).registers r hr
  have htop : s.stack.extent = f.stop m := by
    rw [hs.extent, hfs]
    rfl
  calc f.place r + 8 ≤ f.stop m := (Frame.place_le_stop hwords hfound hwindow).2
    _ ≤ s.stack.bytes.size := htop ▸ hs.capacity
    _ = (s.begin f callers).stack.bytes.size := (begin_keeps s f callers).2.symm

lemma apply_agrees (h : s.Agrees m everywhere t) (hc : c.stack = s.stack)
    (hmod : c.module = m) (he : Effect.IsOf c i e)
    (hfs : ∀ j, Owned m (f :: callers) j → Owned m s.frames j)
    (hdest : ∀ r ∈ i.destination, f.place r + 8 ≤ s.stack.extent)
    (hreads : ∀ target source size, e = .copy target source size →
      ∀ j, source ≤ j → j < source + size → everywhere ∨ Owned m s.frames j) :
    (s.apply m f callers e).Agrees m everywhere (t.apply m f callers e) := by
  have hgo {a b : Stack} (pc : Nat) (pending : Option Register)
      (hab : a.Agrees (fun j => everywhere ∨ Owned m s.frames j) b) :
      State.Agrees m everywhere { s with stack := a, frames := { f with pc, pending } :: callers }
        { t with stack := b, frames := { f with pc, pending } :: callers } :=
    ⟨rfl, h.result, h.steps, { hab with bytes := fun j hj => hab.bytes j (hj.imp_right (hfs j)) }⟩
  cases he with
  | none => exact hgo _ _ h.stack
  | write _ hr => exact hgo _ _ (h.stack.setSlot (hdest _ hr) _)
  | store _ hfit => exact hgo _ _ (h.stack.put (hc ▸ hfit) _)
  | copy _ htgt hsrc =>
    exact hgo _ _ (h.stack.move (hc ▸ htgt) (hc ▸ hsrc) (hreads _ _ _ rfl))
  | jump => exact hgo _ _ h.stack
  | call _ hcallee hcount =>
    subst hmod
    obtain ⟨method, hmeth⟩ := methodIndex?_valid hcallee
    have hparams := (closed_of_getElem? hm hmeth).parameters
    rw [hmeth, Option.map_some, Option.getD_some] at hcount
    exact pushFrame_agrees hwords (hgo _ _ h.stack) hmeth (by omega)
  | leave =>
    exact ⟨rfl, rfl, h.steps, h.stack.setExtent _ fun j hj => hj.imp_right (hfs j ∘ .inr)⟩

/-- Runs from states that agree take the same steps and end in states that agree, as long as they
read only what agrees. -/
lemma finish_agrees (h : s.Agrees m everywhere t) (hvalid : s.Valid m) (hs : s.Stacked m)
    (hreads : ∀ u, Reaches (next m) s u → everywhere ∨ u.ReadsOwn m) :
    (t.finish m limit fuel).1 = (s.finish m limit fuel).1 ∧
      (s.finish m limit fuel).2.Agrees m everywhere (t.finish m limit fuel).2 := by
  induction fuel generalizing s t with
  | zero =>
    cases hfs : s.frames with
    | nil =>
      rw [finish_nil hfs, finish_nil (h.frames.trans hfs)]
      exact ⟨rfl, h⟩
    | cons =>
      simp only [finish, h.frames, hfs]
      exact ⟨trivial, rfl, h.result, congrArg (· + 1) h.steps, hfs ▸ h.stack⟩
  | succ fuel ih =>
    cases hfs : s.frames with
    | nil =>
      rw [finish_nil hfs, finish_nil (h.frames.trans hfs)]
      exact ⟨rfl, h⟩
    | cons f callers =>
      obtain ⟨method, hframe⟩ := hvalid f (by simp [hfs])
      obtain ⟨i, hi, hok⟩ := upcoming_isOf hm s callers hframe
      have hbegin := begin_agrees hwords h hs hfs hframe
      have hextent : (s.begin f callers).stack.extent = f.stop m := by
        rw [(begin_keeps s f callers).1, hs.extent, hfs]
        rfl
      have hplace (r : Register) (hr : r ∈ i.registers) :
          f.base ≤ f.place r ∧ f.place r + 8 ≤ f.stop m :=
        Frame.place_le_stop hwords hframe.found
          (((closed_of_getElem? hm hframe.found).fits i (Array.mem_of_getElem? hi)).registers r hr)
      have howned (j : Nat) (hj : Owned m (f :: callers) j) : Owned m (s.begin f callers).frames j := by
        unfold begin
        split
        · exact hj
        · rw [hfs]
          exact hj
      have hread (j : Nat) (hj : Effect.Reads (s.context m f callers method) i j) :
          everywhere ∨ Owned m (s.begin f callers).frames j := by
        refine (hreads s .refl).imp_right fun hown => howned j ?_
        rw [← hfs]
        exact hown f callers method i hfs hframe.found hi j hj
      have hupcoming : t.upcoming m f callers = s.upcoming m f callers := by
        have hstacked : t.Stacked m := by
          refine ⟨?_, ?_, ?_, h.stack.right.2⟩
          · rw [h.frames]
            exact hs.frames
          · rw [h.frames, h.stack.extent]
            exact hs.extent
          · rw [h.stack.extent]
            exact h.stack.right.1
        rw [upcoming_eq hwords hm hs hfs hframe.found hi,
          upcoming_eq hwords hm hstacked (h.frames.trans hfs) hframe.found hi]
        refine Effect.of_agrees (c := s.context m f callers method) hbegin.stack
          (fun r hr k hk => .inr (howned _ (.inl ?_))) hread
        have := hplace r hr
        show f.base ≤ f.place r + k ∧ f.place r + k < f.stop m
        omega
      cases he : s.upcoming m f callers with
      | error fault =>
        have hfault : s.fault? m = some fault := by simp only [fault?, hfs, he]
        have hfault' : t.fault? m = some fault := by
          simp only [fault?, h.frames, hfs, hupcoming, he]
        obtain ⟨g, others, hg, hfin⟩ := finish_begin hfault
        obtain ⟨g', others', hg', hfinish'⟩ := finish_begin hfault'
        obtain ⟨rfl, rfl⟩ := cons.inj (hg.symm.trans hfs)
        obtain ⟨rfl, rfl⟩ := cons.inj (hg'.symm.trans (h.frames.trans hfs))
        rw [hfin, hfinish']
        exact ⟨rfl, hbegin⟩
      | ok e =>
        have hnext : s.next m =
            some ((s.begin f callers).apply m { f with pending := none } callers e) := by
          simp only [State.next, hfs, he]
        have hnext' : t.next m =
            some ((t.begin f callers).apply m { f with pending := none } callers e) := by
          simp only [State.next, h.frames, hfs, hupcoming, he]
        rw [finish_next hnext, finish_next hnext']
        have happly := apply_agrees (f := { f with pending := none }) hwords hm hbegin rfl rfl (hok e he)
          howned (fun r hr => ?_) fun target source size hcopy j hle hlt => ?_
        · exact ih happly (next_valid hm hvalid hnext) (next_stacked hs hnext)
            fun u hu => hreads u (.head (Option.mem_def.2 hnext) hu)
        · rw [hextent]
          exact (hplace r (mem_append_left _ (Option.mem_toList.2 hr))).2
        · have heffect : Effect.of (s.context m f callers method) i =
              .ok (.copy target source size) := by
            rw [← upcoming_eq hwords hm hs hfs hframe.found hi, he, hcopy]
          exact hread j (.copy heffect hle hlt)

/-! ## Runs -/

lemma execute_agrees (h : s.Agrees m everywhere t) (hvalid : s.Valid m) (hs : s.Stacked m)
    (hcallee : m.methods[callee]? = some method)
    (hcount : arguments.length ≤ method.registerCount)
    (hreads : ∀ u, Reaches (next m) (s.pushFrame m callee arguments) u →
      everywhere ∨ u.ReadsOwn m) :
    (t.execute m limit callee arguments).1 = (s.execute m limit callee arguments).1 ∧
      (s.execute m limit callee arguments).2.Agrees m everywhere
        (t.execute m limit callee arguments).2 := by
  unfold execute
  rw [h.steps]
  exact finish_agrees hwords hm (pushFrame_agrees hwords h hcallee hcount)
    (pushFrame_valid hm hcallee hvalid arguments) (pushFrame_stacked hs callee arguments) hreads

variable {entry : String}

lemma run_agrees (hstat : m.StaticsApart) (hs : 0 < s.stack.bytes.size)
    (ht : 0 < t.stack.bytes.size)
    (hbytes : everywhere → ∀ j, byteAt t.stack.bytes j = byteAt s.stack.bytes j)
    (haccepts : Accepts m entry arguments)
    (hreads : ∀ u callee arguments', s.Enters m limit entry arguments u callee arguments' →
      ∀ v, Reaches (next m) (u.pushFrame m callee arguments') v → everywhere ∨ v.ReadsOwn m) :
    (t.run m limit entry arguments).1 = (s.run m limit entry arguments).1 ∧
      (t.run m limit entry arguments).2.steps = (s.run m limit entry arguments).2.steps ∧
      (t.run m limit entry arguments).2.stack.extent =
        (s.run m limit entry arguments).2.stack.extent := by
  obtain ⟨callee, method, hindex, hmeth, hcount⟩ := haccepts
  have hstacked : (s.reset m).Stacked m := reset_stacked hs
  have hidle {u : State} (hu : u.frames = []) : u.Valid m := by simp [State.Valid, hu]
  have hinit : ((t.reset m).initializeStatics m limit).1 =
      ((s.reset m).initializeStatics m limit).1 ∧
      ((s.reset m).initializeStatics m limit).2.Agrees m everywhere
        ((t.reset m).initializeStatics m limit).2 := by
    have hreset := reset_agrees hstat hs ht hbytes
    unfold initializeStatics
    cases hinitializer : m.methodIndex? staticInitializer with
    | none => exact ⟨rfl, hreset⟩
    | some =>
      obtain ⟨init, hfound⟩ := methodIndex?_valid hinitializer
      exact execute_agrees hwords hm hreset (hidle rfl) hstacked hfound (Nat.zero_le _)
        (hreads _ _ _ (.initializer hindex hmeth hcount hinitializer))
  have hended : (t.runMethod m limit callee arguments).1 = (s.runMethod m limit callee arguments).1 ∧
      (s.runMethod m limit callee arguments).2.Agrees m everywhere
        (t.runMethod m limit callee arguments).2 := by
    unfold runMethod
    rcases hl : (s.reset m).initializeStatics m limit with ⟨result, u⟩
    rcases hr : (t.reset m).initializeStatics m limit with ⟨result', u'⟩
    rw [hl, hr] at hinit
    obtain ⟨rfl, hu⟩ := hinit
    cases result' with
    | error => exact ⟨rfl, hu⟩
    | ok =>
      have hparams := (closed_of_getElem? hm hmeth).parameters
      exact execute_agrees hwords hm hu (hidle (initializeStatics_frames rfl hl))
        (initializeStatics_stacked hstacked hl) hmeth (hcount.trans_le hparams)
        (hreads _ _ _ (.entry hindex hmeth hcount hl))
  obtain ⟨hvalue, hsteps, hstack⟩ := run_eq_runMethod hindex hmeth hcount limit s
  obtain ⟨hvalue', hsteps', hstack'⟩ := run_eq_runMethod hindex hmeth hcount limit t
  obtain ⟨hsame, hagr⟩ := hended
  rw [hvalue, hvalue', hsteps, hsteps', hstack, hstack']
  exact ⟨answer_congr hsame hagr.result, hagr.steps, hagr.stack.extent⟩

lemma readsOwn_of_packed (hpacked : Packed m) (hvalid : s.Valid m) (hs : s.Stacked m)
    (hrounded : s.Rounded) : s.ReadsOwn m := by
  intro f callers method i hfs hmeth hi j hj
  obtain ⟨method', hframe⟩ := hvalid f (by simp [hfs])
  refine (owned_of_packed hpacked hs.frames hvalid hrounded).2 j ?_
  rw [← hs.extent, ← (begin_keeps s f callers).1]
  cases hj with
  | load _ _ hspan _ hlt => exact hlt.trans_le (le_of_span hspan)
  | copy hof _ hlt =>
    obtain ⟨k, hk, hok⟩ := upcoming_isOf hm s callers hframe
    cases hok _ (upcoming_eq hwords hm hs hfs hmeth hi ▸ hof) with
    | copy _ _ hsrc => exact hlt.trans_le hsrc

lemma enters_readsOwn (hpacked : Packed m) (hs : s.IsMachine)
    (h : s.Enters m limit entry arguments t callee arguments')
    (hu : Reaches (next m) (t.pushFrame m callee arguments') u) : u.ReadsOwn m := by
  obtain ⟨hvalid, method, hmethod, -⟩ := enters_valid hm h
  have hidle : t.frames = [] := by
    cases h with
    | initializer => rfl
    | entry _ _ _ hinit => exact initializeStatics_frames rfl hinit
  refine readsOwn_of_packed hwords hm hpacked
    (reaches_valid hm (pushFrame_valid hm hmethod hvalid arguments') hu)
    (reaches_stacked (pushFrame_stacked (enters_stacked hs h) callee arguments') hu)
    (reaches_rounded ?_ hu)
  show ∀ f ∈ _ :: t.frames, _
  rw [hidle]
  exact forall_mem_singleton.2 rfl

end

end

/-! ## Compiled modules -/

/-- The largest number of steps that a word can count. -/
def maxSteps : Nat := 2 ^ 64 - 1

lemma exists_packed_pair : ∃ m, (loweredDemo .pair).1.compile (loweredDemo .pair).2 "main" = .ok m ∧
    m.WithinWords (loweredDemo .pair).2.alignment ∧ Packed m := by
  decide +kernel

/-- What a compiled module gives does not depend on the runs that a machine has made before, provided
that the run, on a new machine, reads no byte between the frames. -/
theorem run_after_runs {p : Program} {types : TypeTable} {name : String} {m : Module}
    (h : p.compile types name = .ok m) (hword : m.WithinWords types.alignment) {s : State}
    (hs : s.IsMachine) {limit size : Nat} {entry : String} {arguments : List UInt64}
    (hreads : ∀ t callee arguments',
      (State.start size).Enters m limit entry arguments t callee arguments' →
        ∀ u, Reaches (State.next m) (t.pushFrame m callee arguments') u → u.ReadsOwn m) :
    (s.run m limit entry arguments).1 = ((State.start size).run m limit entry arguments).1 ∧
      (Accepts m entry arguments → (s.run m limit entry arguments).2.steps =
        ((State.start size).run m limit entry arguments).2.steps) := by
  have hrun (haccepts : Accepts m entry arguments) :=
    run_agrees hword.frames (Program.compile_closed h) (Program.compile_staticsApart h hword)
      (State.IsMachine.start size).nonempty hs.nonempty False.elim haccepts
      fun t callee arguments' henters u hu => .inr (hreads t callee arguments' henters u hu)
  refine ⟨?_, fun haccepts => (hrun haccepts).2.1⟩
  obtain haccepts | ⟨fault, -, hrejects⟩ := accepts_or_rejects
  · exact (hrun haccepts).1
  · rw [hrejects, hrejects]

/-- The example with a struct gives the same result when it is run again. -/
theorem run_after_runs_pair :
    ∃ m, (loweredDemo .pair).1.compile (loweredDemo .pair).2 "main" = .ok m ∧ Packed m ∧
      (((State.start 64).run m 1000 "main" []).2.run m 1000 "main" []).1 =
        ((State.start 64).run m 1000 "main" []).1 := by
  obtain ⟨m, h, hword, hpacked⟩ := exists_packed_pair
  refine ⟨m, h, hpacked, (run_after_runs h hword (.run m 1000 "main" [] (.start 64)) ?_).1⟩
  exact fun t callee arguments' henters u hu =>
    enters_readsOwn hword.frames (Program.compile_closed h) hpacked (.start 64) henters hu

/-- A variable of four bytes, and two functions that write and read the four bytes behind it. -/
def neighbour : Program × Session :=
  (Session.start {}).build "neighbour" do
    let _ ← global "g" (some TypeId.i32) none
    let beyond : Build Expr := do
      let g ← Demo.ident "g"
      let address ← expr (.unary · .address g)
      let next ← Demo.binary (.arith .add) address (← Demo.int 1)
      expr (.unary · .deref next)
    let _ ← function "poke" TypeId.void [] do
      return [← Demo.perform (← Demo.assign (← beyond) (← Demo.int 5))]
    function "peek" TypeId.i32 [] do
      return [← Demo.giveBack (← beyond)]

def acceptedNeighbour : Analysis.Outcome := neighbour.1.analyze {} neighbour.2.types []

def loweredNeighbour : Program := (acceptedNeighbour.program.lower acceptedNeighbour.types {}).2

/-- Those bytes keep what an earlier run wrote there. -/
theorem run_after_runs_neighbour : acceptedNeighbour.result = .ok 1 ∧
    ∃ m, loweredNeighbour.compile acceptedNeighbour.types "neighbour" = .ok m ∧
      ((State.start 64).run m 100 "peek" []).1 = .ok 0 ∧
      (((State.start 64).run m 100 "poke" []).2.run m 100 "peek" []).1 = .ok 5 := by
  decide +kernel

end CompilerCore.Machine
