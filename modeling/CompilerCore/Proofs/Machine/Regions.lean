import CompilerCore.Proofs.Code.Layout
import CompilerCore.Proofs.Machine.Safety
import CompilerCore.Proofs.Machine.Slots

/-!
# The regions of a running machine

The statics lie at the bottom of memory and the frames of the active calls above them, in the order
of the calls.  Each frame holds the registers of its call and then its blocks.  This file shows that
no two of these regions overlap while a module runs, and that a call leaves the end of memory where
it was.
-/

namespace CompilerCore.Machine

open CompilerCore.Code StateTransition List State

/-! ## Frames on top of each other -/

/-- Where the memory that a frame was given ends. -/
def Frame.stop (m : Module) (f : Frame) : Nat :=
  f.base + (m.methods[f.method]?.map (·.frameSize.toNat)).getD 0

/-- Where the innermost frame ends, or else the statics. -/
def top (m : Module) : List Frame → Nat
  | [] => m.staticSize.toNat
  | f :: _ => f.stop m

/-- Frames, innermost first, each of which starts above its caller's and knows where that ends. -/
def FramesStacked (m : Module) : List Frame → Prop
  | [] => True
  | f :: callers => f.callerExtent = top m callers ∧ f.callerExtent ≤ f.base ∧ FramesStacked m callers

/-- A state whose frames lie on top of each other, up to the end of the memory in use. -/
structure State.Stacked (m : Module) (s : State) : Prop where
  frames : FramesStacked m s.frames
  extent : s.stack.extent = top m s.frames
  capacity : s.stack.extent ≤ s.stack.bytes.size
  nonempty : 0 < s.stack.bytes.size

section

variable {m : Module} {s t : State} {fs : List Frame} {f : Frame}

lemma base_le_stop : f.base ≤ f.stop m := Nat.le_add_right ..

section

variable (h : FramesStacked m fs)
include h

lemma staticSize_le_top : m.staticSize.toNat ≤ top m fs := by
  induction fs with
  | nil => exact le_rfl
  | cons f _ ih =>
    obtain ⟨hextent, hbase, hcallers⟩ := h
    have hle := ih hcallers
    exact hle.trans (hextent ▸ hbase.trans base_le_stop)

lemma stop_le_top (hf : f ∈ fs) : f.stop m ≤ top m fs := by
  induction fs with
  | nil => cases hf
  | cons g _ ih =>
    obtain ⟨hextent, hbase, hcallers⟩ := h
    obtain rfl | hf := mem_cons.1 hf
    · exact le_rfl
    · have hle := ih hcallers hf
      exact hle.trans (hextent ▸ hbase.trans base_le_stop)

lemma FramesStacked.pairwise : fs.Pairwise fun inner outer => outer.stop m ≤ inner.base := by
  induction fs with
  | nil => exact .nil
  | cons _ _ ih =>
    obtain ⟨hextent, hbase, hcallers⟩ := h
    refine pairwise_cons.2 ⟨fun outer houter => ?_, ih hcallers⟩
    exact (stop_le_top hcallers houter).trans (hextent ▸ hbase)

lemma FramesStacked.staticSize_le (hf : f ∈ fs) : m.staticSize.toNat ≤ f.base := by
  induction fs with
  | nil => cases hf
  | cons _ _ ih =>
    obtain ⟨hextent, hbase, hcallers⟩ := h
    obtain rfl | hf := mem_cons.1 hf
    · exact (staticSize_le_top hcallers).trans (hextent ▸ hbase)
    · exact ih hcallers hf

end

/-! ## Steps -/

lemma passArguments_keeps (args : List UInt64) (stack : Stack) (base : Nat) :
    (passArguments args stack base).bytes.size = stack.bytes.size ∧
      (passArguments args stack base).extent = stack.extent := by
  induction args generalizing stack base with
  | nil => exact ⟨rfl, rfl⟩
  | cons a _ ih =>
    obtain ⟨hsize, hextent⟩ := ih (stack.setSlot base a) (base + 8)
    exact ⟨hsize.trans (Stack.size_setSlot ..), hextent.trans (Stack.extent_setSlot ..)⟩

lemma pushFrame_stacked (h : s.Stacked m) (callee : Nat) (args : List UInt64) :
    (s.pushFrame m callee args).Stacked m := by
  unfold pushFrame
  extract_lets callerExtent base size stack
  obtain ⟨hsize, hextent⟩ :=
    passArguments_keeps args ((s.stack.setExtent (base + size)).zero base size) base
  have hfit : base + size ≤ (s.stack.setExtent (base + size)).bytes.size :=
    Stack.extent_le_size h.nonempty _
  have hbytes : stack.bytes.size = (s.stack.setExtent (base + size)).bytes.size := by
    rw [hsize, Stack.zero, size_zeroBytes]
  have hstop : stack.extent = base + size := hextent
  refine ⟨⟨h.extent, ?_, h.frames⟩, hstop, ?_, ?_⟩
  · simp only [base]
    omega
  · dsimp only
    omega
  · have := Stack.size_le_size_setExtent s.stack (base + size)
    have := h.nonempty
    dsimp only
    omega

lemma begin_keeps (s : State) (f : Frame) (callers : List Frame) :
    (s.begin f callers).stack.extent = s.stack.extent ∧
      (s.begin f callers).stack.bytes.size = s.stack.bytes.size := by
  unfold begin
  split
  · exact ⟨Stack.extent_setSlot .., Stack.size_setSlot ..⟩
  · exact ⟨rfl, rfl⟩

/-- What a step does to the frames: it changes where the innermost call stands, calls a method or
returns from one. -/
lemma next_cases (h : s.next m = some t) :
    ∃ (f : Frame) (callers : List Frame), s.frames = f :: callers ∧
      ((∃ pc pending, t.frames = { f with pc, pending } :: callers ∧
          t.stack.extent = s.stack.extent ∧ t.stack.bytes.size = s.stack.bytes.size) ∨
        (∃ (pc : Nat) (pending : Option Register) (u : State) (callee : Nat)
          (args : List UInt64), t = u.pushFrame m callee args ∧
          u.frames = { f with pc, pending } :: callers ∧
          u.stack.extent = s.stack.extent ∧ u.stack.bytes.size = s.stack.bytes.size) ∨
        ∃ stack : Stack, t.frames = callers ∧ t.stack = stack.setExtent f.callerExtent ∧
          stack.bytes.size = s.stack.bytes.size) := by
  unfold State.next at h
  split at h
  · cases h
  · next f callers hfs =>
    refine ⟨f, callers, hfs, ?_⟩
    obtain ⟨hextent, hsize⟩ := begin_keeps s f callers
    split at h
    · next e _ =>
      obtain rfl := Option.some.inj h
      cases e with
      | none => exact .inl ⟨_, _, rfl, hextent, hsize⟩
      | write =>
        exact .inl ⟨_, _, rfl, (Stack.extent_setSlot ..).trans hextent,
          (Stack.size_setSlot ..).trans hsize⟩
      | store =>
        exact .inl ⟨_, _, rfl, hextent, (Stack.size_put ..).trans hsize⟩
      | copy =>
        exact .inl ⟨_, _, rfl, hextent, (Stack.size_move ..).trans hsize⟩
      | jump => exact .inl ⟨_, _, rfl, hextent, hsize⟩
      | call callee args =>
        exact .inr (.inl ⟨_, _, _, callee, args, rfl, rfl, hextent, hsize⟩)
      | leave => exact .inr (.inr ⟨_, rfl, rfl, hsize⟩)
    · cases h

lemma next_stacked (hs : s.Stacked m) (h : s.next m = some t) : t.Stacked m := by
  obtain ⟨f, callers, hfs, hcases⟩ := next_cases h
  have hstacked := hs.frames
  have hextent := hs.extent
  have hcapacity := hs.capacity
  rw [hfs] at hstacked hextent
  obtain ⟨pc, pending, hto, hsame, hsize⟩ | ⟨pc, pending, u, callee, args, rfl, hto, hsame, hsize⟩ |
    ⟨stack, hto, hstack, hsize⟩ := hcases
  · refine ⟨?_, ?_, ?_, ?_⟩
    · rw [hto]
      exact hstacked
    · rw [hto, hsame]
      exact hextent
    · omega
    · exact hsize ▸ hs.nonempty
  · refine pushFrame_stacked ⟨?_, ?_, ?_, ?_⟩ callee args
    · rw [hto]
      exact hstacked
    · rw [hto, hsame]
      exact hextent
    · omega
    · exact hsize ▸ hs.nonempty
  · obtain ⟨hcaller, hbase, hcallers⟩ := hstacked
    have hpos : 0 < stack.bytes.size := hsize ▸ hs.nonempty
    refine ⟨?_, ?_, ?_, ?_⟩
    · rw [hto]
      exact hcallers
    · rw [hto, hstack]
      exact hcaller
    · rw [hstack]
      exact Stack.extent_le_size hpos _
    · rw [hstack]
      exact hpos.trans_le (Stack.size_le_size_setExtent _ _)

lemma reaches_stacked (hs : s.Stacked m) (h : Reaches (next m) s t) : t.Stacked m := by
  induction h with
  | refl => exact hs
  | tail _ hstep ih => exact next_stacked ih hstep

/-! ## Calls and returns -/

/-- The states that follow while more than `n` calls are active. -/
def State.Inside (m : Module) (n : Nat) : State → State → Prop :=
  Relation.ReflTransGen fun s t => s.next m = some t ∧ n < t.frames.length

lemma inside_reaches (h : State.Inside m n s t) : Reaches (next m) s t :=
  Relation.ReflTransGen.mono (fun _ _ hstep => Option.mem_def.2 hstep.1) _ _ h

/-- The frames after a step.  The innermost one may stand elsewhere in its method, and may have a
frame above it or be gone. -/
lemma next_frames (h : s.next m = some t) :
    ∃ (f f' : Frame) (callers : List Frame), s.frames = f :: callers ∧ f'.stop m = f.stop m ∧
      (t.frames = f' :: callers ∨ (∃ g, t.frames = g :: f' :: callers) ∨ t.frames = callers) := by
  obtain ⟨f, callers, hfs, hcases⟩ := next_cases h
  obtain ⟨pc, pending, hto, -⟩ | ⟨pc, pending, u, callee, args, rfl, hto, -⟩ | ⟨_, hto, -⟩ := hcases
  · exact ⟨f, { f with pc, pending }, callers, hfs, rfl, .inl hto⟩
  · refine ⟨f, { f with pc, pending }, callers, hfs, rfl, .inr (.inl ?_)⟩
    rw [pushFrame, hto]
    exact ⟨_, rfl⟩
  · exact ⟨f, f, callers, hfs, rfl, .inr (.inr hto)⟩

/-- While a call is active, the frames of its callers stay as they are. -/
lemma inside_frames (hs : s.frames = callee :: outer) (h : State.Inside m outer.length s t) :
    ∃ f inner, t.frames = f :: (inner ++ outer) := by
  induction h with
  | refl => exact ⟨callee, [], hs⟩
  | @tail _ _ _ hstep ih =>
    obtain ⟨g, inner, hu⟩ := ih
    obtain ⟨hnext, hdeep⟩ := hstep
    obtain ⟨f, f', callers, hfs, -, hto⟩ := next_frames hnext
    obtain ⟨rfl, rfl⟩ := cons.inj (hu.symm.trans hfs)
    obtain hto | ⟨h, hto⟩ | hto := hto
    · exact ⟨f', inner, hto⟩
    · exact ⟨h, f' :: inner, hto⟩
    · -- The call is still active, so there is another frame above those of its callers.
      rw [hto] at hdeep ⊢
      cases inner with
      | nil => simp at hdeep
      | cons h inner => exact ⟨h, inner, rfl⟩

/-- A call that has returned has left the end of memory where it was. -/
lemma extent_of_return (hs : s.Stacked m) (hcall : s.next m = some t)
    (hdeeper : t.frames.length = s.frames.length + 1) (hin : State.Inside m s.frames.length t u)
    (hret : u.next m = some v) (hback : v.frames.length = s.frames.length) :
    v.stack.extent = s.stack.extent := by
  have ht := next_stacked hs hcall
  have hu : u.Stacked m := reaches_stacked ht (inside_reaches hin)
  have hv := next_stacked hu hret
  obtain ⟨f, f', callers, hfs, hstop, hto⟩ := next_frames hcall
  have hlen : s.frames.length = (f' :: callers).length := by rw [hfs]; rfl
  obtain ⟨callee, htframes⟩ : ∃ callee, t.frames = callee :: f' :: callers := by
    obtain hto | hto | hto := hto
    · simp [hto, hfs] at hdeeper
    · exact hto
    · simp [hto, hfs] at hdeeper
      omega
  rw [hlen] at hin hback
  obtain ⟨g, inner, huframes⟩ := inside_frames htframes hin
  have hvframes : v.frames = f' :: callers := by
    obtain ⟨h, h', others, hframes', -, hto⟩ := next_frames hret
    obtain ⟨rfl, rfl⟩ := cons.inj (huframes.symm.trans hframes')
    obtain hto | ⟨_, hto⟩ | hto := hto
    · simp [hto] at hback
      omega
    · simp [hto] at hback
      omega
    · have hnil : inner = [] := by simpa [hto] using hback
      rw [hto, hnil, nil_append]
  rw [hv.extent, hs.extent, hvframes, hfs]
  exact hstop

end

/-! ## Machines and runs -/

/-- A machine: one that has not run yet, or after any number of runs. -/
inductive State.IsMachine : State → Prop where
  | start (size : Nat) : IsMachine (State.start size)
  | run {s : State} (m : Module) (limit : Nat) (entry : String) (arguments : List UInt64) :
    IsMachine s → IsMachine (s.run m limit entry arguments).2

section

variable {m : Module} {s t : State} {limit : Nat}

lemma pushFrame_size : s.stack.bytes.size ≤ (s.pushFrame m callee args).stack.bytes.size := by
  unfold pushFrame
  extract_lets callerExtent base size stack
  have hbytes : stack.bytes.size = (s.stack.setExtent (base + size)).bytes.size := by
    rw [(passArguments_keeps _ _ _).1, Stack.zero, size_zeroBytes]
  exact hbytes ▸ Stack.size_le_size_setExtent s.stack (base + size)

lemma next_size (h : s.next m = some t) : s.stack.bytes.size ≤ t.stack.bytes.size := by
  obtain ⟨f, callers, -, ⟨_, _, -, -, hsize⟩ | ⟨_, _, u, callee, args, rfl, -, -, hsize⟩ |
    ⟨stack, -, hstack, hsize⟩⟩ := next_cases h
  · exact hsize.ge
  · exact hsize.ge.trans pushFrame_size
  · rw [hstack]
    exact hsize.ge.trans (Stack.size_le_size_setExtent _ _)

lemma finish_size (m : Module) (limit fuel : Nat) (s : State) :
    s.stack.bytes.size ≤ (s.finish m limit fuel).2.stack.bytes.size := by
  induction fuel generalizing s with
  | zero =>
    unfold finish
    split <;> exact le_rfl
  | succ _ ih =>
    obtain hfs | ⟨t, ht⟩ | ⟨fault, hfault⟩ := next_or_fault m s
    · rw [finish_nil hfs]
    · rw [finish_next ht]
      exact (next_size ht).trans (ih t)
    · obtain ⟨frame, callers, -, hfin⟩ := finish_begin hfault
      rw [hfin]
      exact (begin_keeps s frame callers).2.ge

lemma execute_size : s.stack.bytes.size ≤ (s.execute m limit callee args).2.stack.bytes.size :=
  pushFrame_size.trans (finish_size m limit _ _)

lemma fill_keeps (slots : List Static) (stack : Stack) :
    (slots.foldl (fun stack slot => stack.fill slot.offset.toNat slot.data) stack).bytes.size =
        stack.bytes.size ∧
      (slots.foldl (fun stack slot => stack.fill slot.offset.toNat slot.data) stack).extent =
        stack.extent := by
  induction slots generalizing stack with
  | nil => exact ⟨rfl, rfl⟩
  | cons slot _ ih =>
    obtain ⟨hsize, hextent⟩ := ih (stack.fill slot.offset.toNat slot.data)
    exact ⟨hsize.trans (size_fillBytes ..), hextent⟩

lemma reset_keeps (m : Module) (s : State) :
    (s.reset m).stack.bytes.size = (s.stack.setExtent m.staticSize.toNat).bytes.size ∧
      (s.reset m).stack.extent = m.staticSize.toNat := by
  obtain ⟨hsize, hextent⟩ := fill_keeps m.statics
    ((s.stack.setExtent m.staticSize.toNat).zero 0 m.staticSize.toNat)
  exact ⟨hsize.trans (size_zeroBytes ..), hextent⟩

lemma run_size : s.stack.bytes.size ≤ (s.run m limit entry args).2.stack.bytes.size := by
  obtain ⟨callee, method, hindex, hmeth, hcount⟩ | ⟨fault, -, hrejects⟩ := accepts_or_rejects
  · rw [(run_eq_runMethod hindex hmeth hcount limit s).2.2]
    have hreset : s.stack.bytes.size ≤ (s.reset m).stack.bytes.size :=
      (Stack.size_le_size_setExtent s.stack _).trans (reset_keeps m s).1.ge
    exact runMethod_induction (P := fun r => s.stack.bytes.size ≤ r.2.stack.bytes.size) hmeth hreset
      fun _ hu => hu.trans execute_size
  · rw [hrejects]

lemma State.IsMachine.nonempty (h : s.IsMachine) : 0 < s.stack.bytes.size := by
  induction h with
  | start =>
    simp only [State.start, Stack.empty, size_padBytes]
    omega
  | run _ _ _ _ _ ih => exact ih.trans_le (run_size ..)

/-! ## Where a run starts -/

lemma reset_stacked (h : 0 < s.stack.bytes.size) : (s.reset m).Stacked m := by
  obtain ⟨hsize, hextent⟩ := reset_keeps m s
  refine ⟨trivial, hextent, ?_, ?_⟩
  · rw [hextent, hsize]
    exact Stack.extent_le_size h _
  · rw [hsize]
    exact h.trans_le (Stack.size_le_size_setExtent _ _)

lemma initializeStatics_stacked (hs : s.Stacked m)
    (h : s.initializeStatics m limit = (.ok (), t)) : t.Stacked m := by
  unfold initializeStatics at h
  split at h
  · next callee _ =>
    exact reaches_stacked (pushFrame_stacked hs callee []) (reaches_of_finish h).1
  · cases h
    exact hs

lemma enters_stacked (hs : s.IsMachine) (h : s.Enters m limit entry arguments t callee arguments') :
    t.Stacked m := by
  have hreset : (s.reset m).Stacked m := reset_stacked hs.nonempty
  cases h with
  | initializer => exact hreset
  | entry _ _ _ hinit => exact initializeStatics_stacked hreset hinit

end

/-! ## The regions of the frames -/

/-- The regions of a frame: the window of its registers and then its blocks. -/
def Frame.regions (method : Method) (f : Frame) : List Region :=
  ⟨f.base, method.registerCount * 8⟩ ::
    method.blocks.map fun b => ⟨f.base + method.registerCount * 8 + b.offset.toNat, b.size.toNat⟩

/-- A state in which no two regions overlap: those of a frame lie in it, the frames lie above the
statics and, from the outermost to the innermost, above each other, and the memory in use ends with
the last one. -/
structure State.Separated (m : Module) (s : State) : Prop where
  regions : ∀ f ∈ s.frames, ∃ method, m.methods[f.method]? = some method ∧
    Region.Apart (f.regions method) ∧
    Region.Within f.base (f.base + method.frameSize.toNat) (f.regions method)
  order : s.frames.Pairwise fun inner outer => outer.stop m ≤ inner.base
  statics : ∀ f ∈ s.frames, m.staticSize.toNat ≤ f.base
  extent : s.stack.extent = top m s.frames
  capacity : s.stack.extent ≤ s.stack.bytes.size

/-- When the next step is a call, it leaves the end of the memory in use where it was. -/
def State.RestoresExtent (m : Module) (s : State) : Prop :=
  ∀ t u v, s.next m = some t → t.frames.length = s.frames.length + 1 →
    State.Inside m s.frames.length t u → u.next m = some v → v.frames.length = s.frames.length →
    v.stack.extent = s.stack.extent

lemma regions_apart (h : method.BlocksApart) (hframe : method.frameBytes < 2 ^ 64) {f : Frame} :
    Region.Apart (f.regions method) ∧
      Region.Within f.base (f.base + method.frameSize.toNat) (f.regions method) := by
  have hbelow (b : Block) (hb : b ∈ method.blocks) :
      b.offset.toNat + b.size.toNat ≤ method.blockBytes.toNat :=
    (h.below _ (mem_map_of_mem hb)).2
  refine ⟨pairwise_cons.2 ⟨fun r hr => ?_, ?_⟩, fun r hr => ?_⟩
  · obtain ⟨b, -, rfl⟩ := mem_map.1 hr
    exact Nat.le_add_right ..
  · refine pairwise_map.2 ((pairwise_map.1 h.apart).imp fun {b b'} hle => ?_)
    simp only [Region.stop, Extent.region, Block.extent] at hle ⊢
    omega
  · rw [Method.toNat_frameSize hframe]
    obtain rfl | hr := mem_cons.1 hr
    · simp only [Region.stop]
      omega
    · obtain ⟨b, hb, rfl⟩ := mem_map.1 hr
      have := hbelow b hb
      simp only [Region.stop]
      omega

lemma separated_of_stacked {m : Module} {s : State} (hblocks : ∀ method ∈ m.methods, method.BlocksApart)
    (hframes : ∀ method ∈ m.methods, method.frameBytes < 2 ^ 64) (hvalid : s.Valid m) (h : s.Stacked m) : s.Separated m where
  regions f hf := by
    obtain ⟨method, hmeth⟩ := hvalid f hf
    have hmem := Array.mem_of_getElem? hmeth.found
    exact ⟨method, hmeth.found, regions_apart (hblocks method hmem) (hframes method hmem)⟩
  order := h.frames.pairwise
  statics f hf := h.frames.staticSize_le hf
  extent := h.extent
  capacity := h.capacity

/-- The regions of memory never overlap: neither the statics of a compiled module, nor, in any state
of any of its runs, the registers and blocks of the active calls, and a call gives back what memory it
took. -/
theorem regions_apart_of_compile {p : Program} {types : TypeTable} {name : String} {m : Module}
    (h : p.compile types name = .ok m) (halign : 0 < types.alignment)
    (hword : m.WithinWords types.alignment) :
    m.StaticsApart ∧
    ∀ (limit : Nat) (s : State) (entry : String) (arguments : List UInt64), s.IsMachine →
      ∀ t callee arguments', s.Enters m limit entry arguments t callee arguments' →
        t.Separated m ∧
        ∀ u, Reaches (State.next m) (t.pushFrame m callee arguments') u →
          u.Separated m ∧ u.RestoresExtent m := by
  obtain ⟨hstatics, hblocks⟩ := Program.compile_laidOut h halign hword
  have hclosed : m.Closed := Program.compile_closed h
  refine ⟨hstatics, fun limit s entry arguments hs t callee arguments' henters => ?_⟩
  obtain ⟨hvalid, method, hmethod, -⟩ := enters_valid hclosed henters
  have hstacked : t.Stacked m := enters_stacked hs henters
  refine ⟨separated_of_stacked hblocks hword.frames hvalid hstacked, fun u hu => ?_⟩
  have hu_valid := reaches_valid hclosed (pushFrame_valid hclosed hmethod hvalid arguments') hu
  have hu_stacked := reaches_stacked (pushFrame_stacked hstacked callee arguments') hu
  exact ⟨separated_of_stacked hblocks hword.frames hu_valid hu_stacked,
    fun _ _ _ hcall hdeeper hinside hreturn hback =>
      extent_of_return hu_stacked hcall hdeeper hinside hreturn hback⟩

/-- The example with a struct, whose second method has two blocks and calls the first one: no regions
overlap while it runs. -/
theorem regions_apart_of_compile_pair :
    ∃ m, (loweredDemo .pair).1.compile (loweredDemo .pair).2 "main" = .ok m ∧
      0 < (loweredDemo .pair).2.alignment ∧ m.WithinWords (loweredDemo .pair).2.alignment ∧
      m.methods.map (·.blocks.length) = #[0, 2] ∧ m.methodIndex? "main" = some 1 ∧ m.StaticsApart ∧
      ∀ u, Reaches (State.next m) (((State.start 64).reset m).pushFrame m 1 []) u →
        u.Separated m ∧ u.RestoresExtent m := by
  have halign : 0 < (loweredDemo .pair).2.alignment := by decide +kernel
  obtain ⟨m, h, hword, hblocks, hmain, hinit, method, hmethod, hcount⟩ :
      ∃ m, (loweredDemo .pair).1.compile (loweredDemo .pair).2 "main" = .ok m ∧
        m.WithinWords (loweredDemo .pair).2.alignment ∧ m.methods.map (·.blocks.length) = #[0, 2] ∧
        m.methodIndex? "main" = some 1 ∧ m.methodIndex? staticInitializer = none ∧
        ∃ method, m.methods[1]? = some method ∧ method.parameters.length = 0 := by
    decide +kernel
  obtain ⟨hstatics, hrun⟩ := regions_apart_of_compile h halign hword
  have henters : (State.start 64).Enters m 1000 "main" [] ((State.start 64).reset m) 1 [] := by
    refine .entry hmain hmethod hcount.symm ?_
    rw [State.initializeStatics, hinit]
  exact ⟨m, h, halign, hword, hblocks, hmain, hstatics,
    (hrun 1000 (State.start 64) "main" [] (.start 64) _ _ _ henters).2⟩

end CompilerCore.Machine
