import CompilerCore.Proofs.Except
import CompilerCore.Proofs.Machine.Slots
import Mathlib.Tactic.Ring

/-!
# The laws of memory

A stack is understood through its bytes.  A read gives the number whose digits to the base 256 are the
bytes at its address, a write changes the bytes at its address and no others, and a copy gives its
target the bytes that its source had before.  An access takes place if all its bytes lie below the
extent; otherwise it raises the fault of the region that its address belongs to.  Only the end of a copy
can pass the last address, and then it overruns memory.
-/

namespace CompilerCore.Machine

open Nat Except

/-! ## Regions -/

/-- The fault of an access that cannot take place, by the region of its address. -/
def regionFault (address : UInt64) : Fault :=
  if address < lowestAddress then .invalidAddress address
  else if address < codeBase then .unmapped address
  else if address < stackBase then .codeAccess address
  else if address < heapBase then .outOfFrame address
  else .unmapped address

/-- The place of an address in the stack region. -/
def placeOf (address : UInt64) : Nat := address.toNat - stackBase.toNat

lemma grown_eq (size extent fuel : Nat) : ∃ k, grown size extent fuel = size * 2 ^ k ∧
    (k = 0 ∨ size * 2 ^ k < 2 * extent) := by
  induction fuel generalizing size with
  | zero => exact ⟨0, by simp [grown]⟩
  | succ fuel ih =>
    rw [grown]
    split
    · obtain ⟨k, hk, hlt⟩ := ih (size * 2)
      refine ⟨k + 1, by rw [hk, pow_succ', mul_assoc], .inr ?_⟩
      rw [pow_succ', ← mul_assoc]
      obtain rfl | hlt := hlt
      · omega
      · exact hlt
    · exact ⟨0, by simp⟩

namespace Stack

/-- `size` bytes at `address` lie in the stack region, below the extent. -/
def Covers (s : Stack) (address : UInt64) (size : Nat) : Prop :=
  (stackBase ≤ address ∧ address < heapBase) ∧ placeOf address + size ≤ s.extent

instance (s : Stack) (address : UInt64) (size : Nat) : Decidable (s.Covers address size) :=
  inferInstanceAs (Decidable (_ ∧ _))

variable {s s' : Stack} {address other count value : UInt64} {size width room : Nat}

lemma locate_eq (hs : s.extent < 2 ^ 64) : s.locate address count =
    if stackBase ≤ address ∧ address < heapBase ∧
      (placeOf address + count.toNat) % 2 ^ 64 ≤ s.extent then .ok (placeOf address)
    else .error (regionFault address) := by
  unfold locate regionFault
  have hlow : lowestAddress ≤ codeBase := by decide
  have hcode : codeBase ≤ stackBase := by decide
  by_cases hbase : stackBase ≤ address
  · have hsub : (address - stackBase).toNat = placeOf address := UInt64.toNat_sub_of_le _ _ hbase
    have hlt : UInt64.ofNat s.extent < address - stackBase + count ↔
        s.extent < (placeOf address + count.toNat) % 2 ^ 64 := by
      rw [UInt64.lt_iff_toNat_lt, UInt64.toNat_ofNat_of_lt' hs, UInt64.toNat_add, hsub]
    simp only [hlt, hsub]
    generalize (placeOf address + count.toNat) % 2 ^ 64 = last
    grind
  · grind

/-- Bytes that do not end past the last address are located if they lie below the extent. -/
lemma locate_eq_ite {count : UInt64} (hs : s.extent < 2 ^ 64)
    (hend : placeOf address + count.toNat < 2 ^ 64) :
    s.locate address count = if s.Covers address count.toNat then .ok (placeOf address)
      else .error (regionFault address) := by
  rw [locate_eq hs, mod_eq_of_lt hend]
  simp only [Covers, and_assoc]

lemma span_eq_ite (hs : s.extent < 2 ^ 64) (hend : placeOf address + size < 2 ^ 64) :
    s.span address size =
      if s.Covers address size then .ok (placeOf address) else .error (regionFault address) := by
  have hlt : size < 2 ^ 64 := by omega
  have hsize : (UInt64.ofNat size).toNat = size := UInt64.toNat_ofNat_of_lt' hlt
  rw [span, locate_eq_ite hs (by rwa [hsize]), hsize]
  by_cases h : s.Covers address size
  · rw [if_pos h, ok_bind, if_neg (Nat.not_lt.2 h.2)]
    rfl
  · rw [if_neg h, error_bind]

/-! ## Stacks of the machine -/

/-- The stacks that come from an empty one with room for `room` bytes. -/
inductive Made (room : Nat) : Stack → Prop where
  | empty : Made room (Stack.empty room)
  | setExtent {s : Stack} (extent : UInt64) : Made room s → Made room (s.setExtent extent.toNat)
  | write {s s' : Stack} {address value : UInt64} {width : Nat} : Made room s →
    s.write address width value = .ok s' → Made room s'
  | copy {s s' : Stack} {target source size : UInt64} : Made room s →
    s.copy target source size = .ok s' → Made room s'
  | setSlot {s : Stack} (offset : Nat) (value : UInt64) : Made room s →
    Made room (s.setSlot offset value)
  | fill {s : Stack} (offset : Nat) (data : List UInt8) : Made room s →
    Made room (s.fill offset data)
  | zero {s : Stack} (offset size : Nat) : Made room s → Made room (s.zero offset size)

/-- The laws of a stack that was made with room for `room` bytes. -/
structure Lawful (room : Nat) (s : Stack) : Prop where
  read_ok (address : UInt64) (width : Nat) : width ≤ 8 → s.Covers address width →
    ∃ value, s.read address width = .ok value ∧
      value.toNat = Nat.ofDigits 256 (digitsAt s.bytes (placeOf address) width)
  read_error (address : UInt64) (width : Nat) : width ≤ 8 → ¬s.Covers address width →
    s.read address width = .error (regionFault address)
  write_ok (address value : UInt64) (width : Nat) : width ≤ 8 → s.Covers address width →
    ∃ s', s.write address width value = .ok s' ∧ s'.extent = s.extent ∧
      s'.capacity = s.capacity ∧ ∀ j, byteAt s'.bytes j =
        if placeOf address ≤ j ∧ j < placeOf address + width then
          UInt8.ofNat (value.toNat / 256 ^ (j - placeOf address))
        else byteAt s.bytes j
  write_error (address value : UInt64) (width : Nat) : width ≤ 8 → ¬s.Covers address width →
    s.write address width value = .error (regionFault address)
  /-- A read of what was written gives its low bytes. -/
  read_written (address value : UInt64) (width : Nat) (s' : Stack) : width ≤ 8 →
    s.write address width value = .ok s' →
      s'.read address width = .ok (UInt64.ofNat (value.toNat % 2 ^ (8 * width)))
  /-- A read apart from what was written is as before. -/
  read_apart (address other value : UInt64) (width width' : Nat) (s' : Stack) : width ≤ 8 →
    width' ≤ 8 → s.write address width value = .ok s' →
      address.toNat + width ≤ other.toNat ∨ other.toNat + width' ≤ address.toNat →
        s'.read other width' = s.read other width'
  /-- Each byte of any other read is the byte that was written there, or the one from before. -/
  read_across (address other value result : UInt64) (width width' : Nat) (s' : Stack) : width ≤ 8 →
    width' ≤ 8 → s.write address width value = .ok s' → s'.read other width' = .ok result →
      ∀ i < width', result.toNat / 256 ^ i % 256 =
        if address.toNat ≤ other.toNat + i ∧ other.toNat + i < address.toNat + width then
          value.toNat / 256 ^ (other.toNat + i - address.toNat) % 256
        else (byteAt s.bytes (placeOf other + i)).toNat
  /-- A copy puts the bytes that its source had before, also where the two overlap. -/
  copy_ok (target source size : UInt64) : s.Covers target size.toNat → s.Covers source size.toNat →
    ∃ s', s.copy target source size = .ok s' ∧ s'.extent = s.extent ∧
      s'.capacity = s.capacity ∧ ∀ j, byteAt s'.bytes j =
        if placeOf target ≤ j ∧ j < placeOf target + size.toNat then
          byteAt s.bytes (placeOf source + (j - placeOf target))
        else byteAt s.bytes j
  copy_error_target (target source size : UInt64) : placeOf target + size.toNat < 2 ^ 64 →
    ¬s.Covers target size.toNat → s.copy target source size = .error (regionFault target)
  copy_error_source (target source size : UInt64) : placeOf source + size.toNat < 2 ^ 64 →
    s.Covers target size.toNat → ¬s.Covers source size.toNat →
      s.copy target source size = .error (regionFault source)
  /-- A new extent keeps the bytes below it, in memory that has doubled as often as it takes.  What it
  doubles to is less than twice the extent, so sizes are words for extents up to `2 ^ 63`. -/
  setExtent (extent : UInt64) : (s.setExtent extent.toNat).extent = extent.toNat ∧
    (∀ j < s.extent, j < extent.toNat →
      byteAt (s.setExtent extent.toNat).bytes j = byteAt s.bytes j) ∧
    (∃ k, (s.setExtent extent.toNat).capacity = max room 8 * 2 ^ k ∧
      extent.toNat ≤ (s.setExtent extent.toNat).capacity) ∧
    ((s.setExtent extent.toNat).capacity = s.capacity ∨
      (s.setExtent extent.toNat).capacity < 2 * extent.toNat)
  /-- What lies below the extent lies in memory. -/
  extent_le : s.extent ≤ s.capacity

/-- What the operations keep: the extent is a word and lies in memory, which has only doubled. -/
structure Sound (room : Nat) (s : Stack) : Prop where
  word : s.extent < 2 ^ 64
  extent_le : s.extent ≤ s.capacity
  doubled : ∃ k, s.capacity = max room 8 * 2 ^ k

lemma Sound.keep (h : s.Sound room) (hextent : s'.extent = s.extent)
    (hsize : s'.bytes.size = s.bytes.size) : s'.Sound room := by
  obtain ⟨hword, hle, hdoubled⟩ := h
  unfold capacity at hle hdoubled
  rw [← hextent] at hword
  rw [← hextent, ← hsize] at hle
  rw [← hsize] at hdoubled
  exact ⟨hword, hle, hdoubled⟩

lemma capacity_setExtent (s : Stack) (extent : Nat) :
    ∃ k, (s.setExtent extent).capacity = s.capacity * 2 ^ k ∧
      (k = 0 ∨ s.capacity * 2 ^ k < 2 * extent) := by
  obtain ⟨k, hk, hlt⟩ := grown_eq s.bytes.size extent extent
  have hle := size_le_grown s.bytes.size extent extent
  refine ⟨k, ?_, hlt⟩
  simp only [capacity, Stack.setExtent, size_padBytes]
  omega

lemma Sound.setExtent (h : s.Sound room) (extent : UInt64) :
    (s.setExtent extent.toNat).Sound room := by
  obtain ⟨k, hk⟩ := h.doubled
  obtain ⟨l, hl, -⟩ := capacity_setExtent s extent.toNat
  have hpos : 0 < s.capacity := by
    rw [hk]
    positivity
  refine ⟨extent.toNat_lt, extent_le_size hpos _, k + l, ?_⟩
  rw [hl, hk, pow_add, mul_assoc]

lemma Made.sound (h : s.Made room) : s.Sound room := by
  induction h with
  | empty => exact ⟨Nat.two_pow_pos 64, Nat.zero_le _, 0, by simp [capacity, Stack.empty]⟩
  | setExtent extent _ ih => exact ih.setExtent extent
  | @write s _ address _ width _ hwrite ih =>
    unfold Stack.write at hwrite
    cases hspan : s.span address width with
    | error => rw [hspan] at hwrite; cases hwrite
    | ok =>
      rw [hspan] at hwrite
      cases hwrite
      exact ih.keep rfl (size_put ..)
  | copy _ hcopy ih =>
    obtain ⟨places, -, hcopy⟩ := ok_of_bind hcopy
    cases hcopy
    exact ih.keep rfl (size_move ..)
  | setSlot _ _ _ ih => exact ih.keep (extent_setSlot ..) (size_setSlot ..)
  | fill _ _ _ ih => exact ih.keep rfl (size_fillBytes ..)
  | zero _ _ _ ih => exact ih.keep rfl (size_zeroBytes ..)

/-! ## Accesses -/

lemma byteAt_put (hwidth : width ≤ 8) (hfit : place + width ≤ s.capacity) (j : Nat) :
    byteAt (s.put place width value).bytes j =
      if place ≤ j ∧ j < place + width then UInt8.ofNat (value.toNat / 256 ^ (j - place))
      else byteAt s.bytes j := by
  have hin : place ≤ j ∧ j < place + width ∧ j < s.bytes.size ↔ place ≤ j ∧ j < place + width := by
    unfold capacity at hfit
    omega
  rw [put, clip, min_eq_left hwidth, byteAt_writeBytes]
  simp only [hin]

lemma byteAt_move (hplace : place + size ≤ s.capacity) (hstart : start + size ≤ s.capacity)
    (j : Nat) :
    byteAt (s.move place start size).bytes j =
      if place ≤ j ∧ j < place + size then byteAt s.bytes (start + (j - place))
      else byteAt s.bytes j := by
  unfold capacity at hplace hstart
  rw [move, sliceBytes, min_eq_left (by omega), byteAt_fillBytes]
  by_cases hin : place ≤ j ∧ j < place + size
  · rw [if_pos (by omega), if_pos hin]
    simp [show j - place < size by omega]
  · rw [if_neg hin]
    split
    · simp [show ¬j - place < size by omega]
    · rfl

lemma placeOf_add_lt (h : width ≤ 8) : placeOf address + width < 2 ^ 64 := by
  have hlt := address.toNat_lt
  have hbase : stackBase.toNat = 2 ^ 28 := by decide
  unfold placeOf
  omega

namespace Sound

lemma read_eq (h : s.Sound room) (hwidth : width ≤ 8) : s.read address width =
    if s.Covers address width then .ok (readBytes s.bytes (placeOf address) width)
    else .error (regionFault address) := by
  rw [read, clip, min_eq_left hwidth, span_eq_ite h.word (placeOf_add_lt hwidth)]
  split <;> rfl

lemma write_eq (h : s.Sound room) (hwidth : width ≤ 8) : s.write address width value =
    if s.Covers address width then .ok (s.put (placeOf address) width value)
    else .error (regionFault address) := by
  rw [write, span_eq_ite h.word (placeOf_add_lt hwidth)]
  split <;> rfl

lemma written (h : s.Sound room) (hwidth : width ≤ 8) (hwrite : s.write address width value = .ok s') :
    s.Covers address width ∧ s'.Sound room ∧ s'.extent = s.extent ∧
      ∀ j, byteAt s'.bytes j = if placeOf address ≤ j ∧ j < placeOf address + width then
          UInt8.ofNat (value.toNat / 256 ^ (j - placeOf address))
        else byteAt s.bytes j := by
  rw [h.write_eq hwidth] at hwrite
  split at hwrite
  · next hcovers =>
    cases hwrite
    exact ⟨hcovers, h.keep rfl (size_put ..), rfl, byteAt_put hwidth (hcovers.2.trans h.extent_le)⟩
  · cases hwrite

lemma read_apart (h : s.Sound room) (hwidth : width ≤ 8) (hsize : size ≤ 8)
    (hwrite : s.write address width value = .ok s')
    (hapart : address.toNat + width ≤ other.toNat ∨ other.toNat + size ≤ address.toNat) :
    s'.read other size = s.read other size := by
  obtain ⟨hcovers, hsound, hextent, hbytes⟩ := h.written hwidth hwrite
  have hsame : s'.Covers other size ↔ s.Covers other size := by rw [Covers, Covers, hextent]
  simp only [h.read_eq hsize, hsound.read_eq hsize, hsame]
  split
  · next hother =>
    refine congrArg ok (readBytes_congr hsize fun i hi => ?_)
    have hbase := UInt64.le_iff_toNat_le.1 hcovers.1.1
    have hbase' := UInt64.le_iff_toNat_le.1 hother.1.1
    rw [hbytes, if_neg]
    unfold placeOf
    omega
  · rfl

lemma read_across (h : s.Sound room) (hwidth : width ≤ 8) (hsize : size ≤ 8)
    (hwrite : s.write address width value = .ok s') (hread : s'.read other size = .ok result)
    (hi : i < size) :
    result.toNat / 256 ^ i % 256 =
      if address.toNat ≤ other.toNat + i ∧ other.toNat + i < address.toNat + width then
        value.toNat / 256 ^ (other.toNat + i - address.toNat) % 256
      else (byteAt s.bytes (placeOf other + i)).toNat := by
  obtain ⟨hcovers, hsound, -, hbytes⟩ := h.written hwidth hwrite
  rw [hsound.read_eq hsize] at hread
  split at hread
  · next hother =>
    have hbase := UInt64.le_iff_toNat_le.1 hcovers.1.1
    have hbase' := UInt64.le_iff_toNat_le.1 hother.1.1
    rw [← ok.inj hread, toNat_readBytes_eq_ofDigits hsize, ofDigits_digitsAt_div_mod hi, hbytes]
    by_cases hin : address.toNat ≤ other.toNat + i ∧ other.toNat + i < address.toNat + width
    · have hplace : placeOf other + i - placeOf address = other.toNat + i - address.toNat := by
        unfold placeOf
        omega
      rw [if_pos hin, if_pos (by unfold placeOf; omega), UInt8.toNat_ofNat', hplace]
    · rw [if_neg hin, if_neg (by unfold placeOf; omega)]
  · cases hread

end Sound

lemma copy_of_located (htarget : s.locate target count = .ok place)
    (hsource : s.locate source count = .ok start) :
    s.copy target source count =
      if s.extent < max place start + count.toNat then .error (.overrun target)
      else .ok (s.move place start count.toNat) := by
  rw [copy, spans, UInt64.ofNat_toNat, htarget, hsource]
  by_cases hlt : s.extent < max place start + count.toNat
  · simp [hlt]
  · simp [hlt]

/-- Memory obeys its laws in every state. -/
theorem Made.lawful (h : s.Made room) : s.Lawful room := by
  have hs := h.sound
  have hend {address : UInt64} {size : Nat} (hcovers : s.Covers address size) :
      placeOf address + size < 2 ^ 64 := hcovers.2.trans_lt hs.word
  refine
    { read_ok := fun address width hwidth hcovers =>
        ⟨_, (hs.read_eq hwidth).trans (if_pos hcovers), toNat_readBytes_eq_ofDigits hwidth⟩
      read_error := fun _ _ hwidth hcovers => (hs.read_eq hwidth).trans (if_neg hcovers)
      write_ok := fun address value width hwidth hcovers =>
        ⟨_, (hs.write_eq hwidth).trans (if_pos hcovers), rfl, size_put ..,
          byteAt_put hwidth (hcovers.2.trans hs.extent_le)⟩
      write_error := fun _ _ _ hwidth hcovers => (hs.write_eq hwidth).trans (if_neg hcovers)
      read_written := fun address value width s' hwidth hwrite => ?_
      read_apart := fun _ _ _ _ _ _ => hs.read_apart
      read_across := fun _ _ _ _ _ _ _ hwidth hwidth' hwrite hread _ =>
        hs.read_across hwidth hwidth' hwrite hread
      copy_ok := fun target source size htarget hsource => ⟨s.move _ _ _, ?_, rfl, size_move ..,
        byteAt_move (htarget.2.trans hs.extent_le) (hsource.2.trans hs.extent_le)⟩
      copy_error_target := fun target source size hend htarget => ?_
      copy_error_source := fun target source size hend' htarget hsource => ?_
      setExtent := fun extent => ⟨rfl, fun j _ _ => byteAt_padBytes _ _ j, ?_, ?_⟩
      extent_le := hs.extent_le }
  · obtain ⟨hcovers, hsound, hextent, hbytes⟩ := hs.written hwidth hwrite
    rw [hsound.read_eq hwidth, if_pos (by rwa [Covers, hextent])]
    refine congrArg ok (UInt64.toNat_inj.1 ?_)
    have hlt : value.toNat % 256 ^ width < 2 ^ 64 := (Nat.mod_le _ _).trans_lt value.toNat_lt
    rw [Nat.pow_mul, show 2 ^ 8 = 256 by rfl, UInt64.toNat_ofNat_of_lt' hlt]
    refine toNat_readBytes hwidth fun i hi => ?_
    rw [hbytes, if_pos (by omega), Nat.add_sub_cancel_left]
  · rw [copy_of_located ((locate_eq_ite hs.word (hend htarget)).trans (if_pos htarget))
      ((locate_eq_ite hs.word (hend hsource)).trans (if_pos hsource)), if_neg]
    rw [Nat.not_lt, ← Nat.add_max_add_right]
    exact max_le htarget.2 hsource.2
  · rw [Stack.copy, spans, UInt64.ofNat_toNat, locate_eq_ite hs.word hend, if_neg htarget]
    rfl
  · rw [Stack.copy, spans, UInt64.ofNat_toNat, locate_eq_ite hs.word (hend htarget), if_pos htarget,
      locate_eq_ite hs.word hend', if_neg hsource]
    rfl
  · obtain ⟨k, hk⟩ := (hs.setExtent extent).doubled
    exact ⟨k, hk, (hs.setExtent extent).extent_le⟩
  · obtain ⟨k, hk, hlt⟩ := capacity_setExtent s extent.toNat
    rw [hk]
    exact hlt.imp_left fun hzero => by rw [hzero, pow_zero, mul_one]

/-- Two bytes are cleared in the middle of eight that are set. -/
theorem Made.lawful_cleared : ∃ s s' : Stack,
    ((Stack.empty 16).setExtent 8).write 0x10000000 8 0xFFFFFFFFFFFFFFFF = .ok s ∧
    s.write 0x10000002 2 0 = .ok s' ∧ s'.read 0x10000000 8 = .ok 0xFFFFFFFF0000FFFF ∧
    s'.Lawful 16 := by
  have hset : Made 16 ((Stack.empty 16).setExtent 8) := .setExtent 8 .empty
  have hwide := Made.write hset (rfl : Stack.write _ 0x10000000 8 0xFFFFFFFFFFFFFFFF = .ok _)
  have hnarrow := Made.write hwide (rfl : Stack.write _ 0x10000002 2 0 = .ok _)
  exact ⟨_, _, rfl, rfl, by decide +kernel, Made.lawful hnarrow⟩

/-! ## Ends past the last address -/

lemma copy_eq_overrun_iff (hs : s.extent < 2 ^ 64) :
    s.copy target source count = .error (.overrun target) ↔
      ∃ place start, s.locate target count = .ok place ∧ s.locate source count = .ok start ∧
        s.extent < max place start + count.toNat := by
  have hne (address : UInt64) : regionFault address ≠ .overrun target := by
    unfold regionFault
    grind
  have hlocate (address : UInt64) : (∃ place, s.locate address count = .ok place) ∨
      s.locate address count = .error (regionFault address) := by
    rw [locate_eq hs]
    grind
  obtain ⟨place, htarget⟩ | htarget := hlocate target
  · obtain ⟨start, hsource⟩ | hsource := hlocate source
    · rw [copy_of_located htarget hsource]
      grind
    · rw [copy, spans, UInt64.ofNat_toNat, htarget, hsource]
      exact ⟨fun h => absurd (error.inj h) (hne source), by simp⟩
  · rw [copy, spans, UInt64.ofNat_toNat, htarget]
    exact ⟨fun h => absurd (error.inj h) (hne target), by simp⟩

/-- Bytes that are located lie below the extent unless their end is past the last address, for which
there must be more of them than the regions above the stack have.  A copy overruns memory exactly if both
of its places are found and one of them has such an end. -/
theorem Made.overruns_iff (h : s.Made room) :
    (∀ (address count : UInt64) (place : Nat), s.locate address count = .ok place →
      (place + count.toNat ≤ s.extent ↔ place + count.toNat < 2 ^ 64) ∧
      (count.toNat ≤ 2 ^ 64 - 2 ^ 30 → place + count.toNat ≤ s.capacity)) ∧
    ∀ target source count : UInt64, s.copy target source count = .error (.overrun target) ↔
      ∃ place start, s.locate target count = .ok place ∧ s.locate source count = .ok start ∧
        2 ^ 64 ≤ max place start + count.toNat := by
  have hword := h.sound.word
  have hinside (address count : UInt64) (place : Nat) (hfound : s.locate address count = .ok place) :
      (place + count.toNat ≤ s.extent ↔ place + count.toNat < 2 ^ 64) ∧ place < 2 ^ 30 := by
    rw [locate_eq hword] at hfound
    split at hfound
    · next hin =>
      have hplace := ok.inj hfound
      have hlt : address.toNat < heapBase.toNat := UInt64.lt_iff_toNat_lt.1 hin.2.1
      have hheap : heapBase.toNat = 2 ^ 30 := by decide
      rw [hplace] at hin
      refine ⟨⟨fun hle => hle.trans_lt hword, fun hend => Nat.mod_eq_of_lt hend ▸ hin.2.2⟩, ?_⟩
      unfold placeOf at hplace
      omega
    · cases hfound
  refine ⟨fun address count place hfound => ?_, fun target source count => ?_⟩
  · obtain ⟨hiff, hlt⟩ := hinside address count place hfound
    refine ⟨hiff, fun hcount => (hiff.2 ?_).trans h.sound.extent_le⟩
    omega
  · rw [copy_eq_overrun_iff hword]
    refine exists_congr fun place => exists_congr fun start => and_congr_right fun htarget =>
      and_congr_right fun hsource => ?_
    have htarget' := (hinside target count place htarget).1
    have hsource' := (hinside source count start hsource).1
    omega

/-- The last sixteen of 32 bytes are copied within memory; all but eight of the address space are not. -/
theorem Made.overruns_iff_copies : ∃ s : Stack, s.Made 64 ∧ s.extent = 32 ∧
    s.locate 0x10000010 16 = .ok 16 ∧ 16 + 16 ≤ s.capacity ∧
    s.copy 0x10000008 0x10000010 0xFFFFFFFFFFFFFFF8 = .error (.overrun 0x10000008) := by
  have hmade : Made 64 ((Stack.empty 64).setExtent 32) := .setExtent 32 .empty
  have hfound : ((Stack.empty 64).setExtent 32).locate 0x10000010 16 = .ok 16 := by decide +kernel
  refine ⟨_, hmade, rfl, hfound, (hmade.overruns_iff.1 _ _ _ hfound).2 (by decide), ?_⟩
  exact (hmade.overruns_iff.2 _ _ _).2 ⟨8, 16, by decide +kernel⟩

/-- Bytes are located although they end past the extent. -/
theorem located_past_extent : ((Stack.empty 64).setExtent 32).extent = 32 ∧
    ((Stack.empty 64).setExtent 32).locate 0x10000008 0xFFFFFFFFFFFFFFF8 = .ok 8 ∧
    32 < 8 + (0xFFFFFFFFFFFFFFF8 : UInt64).toNat := by
  decide +kernel

end Stack

end CompilerCore.Machine
