import CompilerCore.Machine.Stack
import Mathlib.Algebra.Group.Nat.Defs
import Mathlib.Data.Nat.Digits.Defs
import Mathlib.Order.Nat

/-!
# Registers in memory

A register is eight bytes of the stack.  Writing one register and reading another gives what was
there before, and reading it again gives what was written.
-/

namespace CompilerCore.Machine

open List

/-! ## Stretches of bytes -/

lemma byteAt_fillBytes (bytes : ByteArray) (offset : Nat) (data : List UInt8) (j : Nat) :
    byteAt (fillBytes bytes offset data) j =
      if offset ≤ j ∧ j < bytes.size then data[j - offset]?.getD (byteAt bytes j)
      else byteAt bytes j := by
  induction data generalizing bytes offset with
  | nil => simp [fillBytes]
  | cons b rest ih =>
    rw [fillBytes, ih, size_setByte, byteAt_setByte]
    by_cases hj : offset = j
    · subst hj
      simp
    · rw [if_neg (by omega : ¬(offset = j ∧ offset < bytes.size))]
      by_cases hle : offset + 1 ≤ j
      · rw [show j - offset = j - (offset + 1) + 1 by omega, getElem?_cons_succ]
        simp [hle, Nat.le_of_succ_le hle]
      · rw [if_neg (by omega), if_neg (by omega)]

lemma byteAt_zeroBytes (bytes : ByteArray) (offset size j : Nat) :
    byteAt (zeroBytes bytes offset size) j =
      if offset ≤ j ∧ j < offset + size then 0 else byteAt bytes j := by
  have hfill : zeroBytes bytes offset size = fillBytes bytes offset (replicate size 0) := by
    induction size generalizing bytes offset with
    | zero => rfl
    | succ _ ih => exact ih _ _
  have hout (h : bytes.size ≤ j) : byteAt bytes j = 0 := dif_neg h.not_gt
  rw [hfill, byteAt_fillBytes, getElem?_replicate]
  grind

/-- The low bytes of a word. -/
def bytesOf (value : UInt64) : Nat → List UInt8
  | 0 => []
  | width + 1 => value.toUInt8 :: bytesOf (value >>> 8) width

lemma getElem?_bytesOf (value : UInt64) (width i : Nat) : (bytesOf value width)[i]? =
    if i < width then some (.ofNat (value.toNat / 256 ^ i)) else none := by
  induction width generalizing value i with
  | zero => rfl
  | succ width ih =>
    cases i with
    | zero =>
      rw [Nat.pow_zero, Nat.div_one]
      rfl
    | succ i =>
      rw [bytesOf, getElem?_cons_succ, ih, Nat.pow_succ', ← Nat.div_div_eq_div_mul,
        UInt64.toNat_shiftRight, Nat.shiftRight_eq_div_pow]
      simp

lemma byteAt_writeBytes (bytes : ByteArray) (offset : Nat) (value : UInt64) (width j : Nat) :
    byteAt (writeBytes bytes offset value width) j =
      if offset ≤ j ∧ j < offset + width ∧ j < bytes.size then
        UInt8.ofNat (value.toNat / 256 ^ (j - offset))
      else byteAt bytes j := by
  have hfill : writeBytes bytes offset value width = fillBytes bytes offset (bytesOf value width) := by
    induction width generalizing bytes offset value with
    | zero => rfl
    | succ _ ih => exact ih _ _ _
  rw [hfill, byteAt_fillBytes, getElem?_bytesOf]
  grind

/-! ## Bytes of a word -/

variable {bytes : ByteArray} {offset width : Nat}

lemma toNat_readBytes (hwidth : width ≤ 8)
    (h : ∀ i < width, byteAt bytes (offset + i) = UInt8.ofNat (n / 256 ^ i)) :
    (readBytes bytes offset width).toNat = n % 256 ^ width := by
  induction width generalizing offset n with
  | zero => simp [readBytes, Nat.mod_one]
  | succ width ih =>
    have hrest : (readBytes bytes (offset + 1) width).toNat = n / 256 % 256 ^ width := by
      refine ih (by omega) fun i hi => ?_
      rw [show offset + 1 + i = offset + (i + 1) by omega, h (i + 1) (by omega),
        Nat.pow_succ', Nat.div_div_eq_div_mul]
    have hfirst : (byteAt bytes offset).toNat = n % 256 := by
      have := h 0 (by omega)
      rw [Nat.add_zero, Nat.pow_zero, Nat.div_one] at this
      rw [this, UInt8.toNat_ofNat']
    have hlt : n / 256 % 256 ^ width < 256 ^ 7 :=
      (Nat.mod_lt _ (Nat.pow_pos (by decide))).trans_le
        (Nat.pow_le_pow_right (by decide) (by omega))
    have hshift : (readBytes bytes (offset + 1) width <<< 8).toNat =
        (n / 256 % 256 ^ width) <<< 8 := by
      rw [UInt64.toNat_shiftLeft, hrest]
      refine Nat.mod_eq_of_lt ?_
      simp only [UInt64.reduceToNat, Nat.reduceMod, Nat.reducePow] at hlt ⊢
      omega
    have hpow : n % 256 ^ (width + 1) = n % 256 + 256 * (n / 256 % 256 ^ width) := by
      rw [Nat.pow_succ', Nat.mod_mul]
    rw [readBytes, UInt64.toNat_or, hshift, UInt8.toNat_toUInt64, hfirst, Nat.or_comm,
      ← Nat.shiftLeft_add_eq_or_of_lt (by omega), Nat.shiftLeft_eq, hpow]
    omega

/-- The bytes from a place on, as digits. -/
def digitsAt (bytes : ByteArray) (offset width : Nat) : List Nat :=
  (range width).map fun i => (byteAt bytes (offset + i)).toNat

lemma digitsAt_succ : digitsAt bytes offset (width + 1) =
    (byteAt bytes offset).toNat :: digitsAt bytes (offset + 1) width := by
  unfold digitsAt
  rw [range_succ_eq_map, map_cons, map_map]
  refine congrArg₂ _ rfl (map_congr_left fun i _ => ?_)
  rw [Function.comp_apply, Nat.succ_eq_add_one, show offset + (i + 1) = offset + 1 + i by omega]

lemma ofDigits_digitsAt_div_mod (h : i < width) :
    Nat.ofDigits 256 (digitsAt bytes offset width) / 256 ^ i % 256 =
      (byteAt bytes (offset + i)).toNat := by
  induction width generalizing offset i with
  | zero => omega
  | succ width ih =>
    rw [digitsAt_succ, Nat.ofDigits_cons]
    have hlt := UInt8.toNat_lt (byteAt bytes offset)
    cases i with
    | zero =>
      rw [Nat.pow_zero, Nat.div_one]
      show _ = (byteAt bytes offset).toNat
      omega
    | succ i =>
      have hdiv : ((byteAt bytes offset).toNat +
          256 * Nat.ofDigits 256 (digitsAt bytes (offset + 1) width)) / 256 =
          Nat.ofDigits 256 (digitsAt bytes (offset + 1) width) := by omega
      rw [Nat.pow_succ', ← Nat.div_div_eq_div_mul, hdiv, ih (by omega),
        show offset + 1 + i = offset + (i + 1) by omega]

/-- A read of at most eight bytes gives the number that they are the digits of. -/
lemma toNat_readBytes_eq_ofDigits (h : width ≤ 8) :
    (readBytes bytes offset width).toNat = Nat.ofDigits 256 (digitsAt bytes offset width) := by
  have hbytes (i : Nat) (hi : i < width) : byteAt bytes (offset + i) =
      UInt8.ofNat (Nat.ofDigits 256 (digitsAt bytes offset width) / 256 ^ i) := by
    rw [← UInt8.toNat_inj, UInt8.toNat_ofNat', ← ofDigits_digitsAt_div_mod hi]
  have hlt : Nat.ofDigits 256 (digitsAt bytes offset width) < 256 ^ width := by
    have hdigit : ∀ d ∈ digitsAt bytes offset width, d < 256 := by
      simpa [digitsAt] using fun i _ => UInt8.toNat_lt (byteAt bytes (offset + i))
    simpa [digitsAt] using Nat.ofDigits_lt_base_pow_length (by decide) hdigit
  rw [toNat_readBytes h hbytes, Nat.mod_eq_of_lt hlt]

lemma readBytes_congr (hwidth : width ≤ 8)
    (h : ∀ i < width, byteAt bytes (offset + i) = byteAt bytes' (offset' + i)) :
    readBytes bytes offset width = readBytes bytes' offset' width := by
  have hdigits : digitsAt bytes offset width = digitsAt bytes' offset' width :=
    map_congr_left fun i hi => congrArg UInt8.toNat (h i (mem_range.1 hi))
  rw [← UInt64.toNat_inj, toNat_readBytes_eq_ofDigits hwidth, toNat_readBytes_eq_ofDigits hwidth,
    hdigits]

lemma toNat_readBytes_writeBytes (hwidth : width ≤ 8) (h : offset + width ≤ bytes.size) :
    (readBytes (writeBytes bytes offset value width) offset width).toNat =
      value.toNat % 256 ^ width := by
  refine toNat_readBytes hwidth fun i hi => ?_
  rw [byteAt_writeBytes, if_pos (by omega), Nat.add_sub_cancel_left]

/-! ## Slots -/

namespace Stack

variable {offset : Nat} {s : Stack}

lemma slot_setSlot_self (h : offset + 8 ≤ s.bytes.size) (value : UInt64) :
    (s.setSlot offset value).slot offset = value := by
  have hlt : value.toNat < 256 ^ 8 := lt_of_lt_of_eq value.toNat_lt (by decide)
  rw [slot, setSlot, ← UInt64.toNat_inj, toNat_readBytes_writeBytes le_rfl h, Nat.mod_eq_of_lt hlt]

lemma slot_setSlot_of_disjoint (h : other + 8 ≤ offset ∨ offset + 8 ≤ other) (value : UInt64) :
    (s.setSlot offset value).slot other = s.slot other := by
  refine readBytes_congr le_rfl fun i hi => ?_
  rw [setSlot, byteAt_writeBytes, if_neg (by omega)]

@[simp] lemma size_setSlot (s : Stack) (offset : Nat) (value : UInt64) :
    (s.setSlot offset value).bytes.size = s.bytes.size := by
  rw [setSlot, size_writeBytes]

@[simp] lemma extent_setSlot (s : Stack) (offset : Nat) (value : UInt64) :
    (s.setSlot offset value).extent = s.extent := by
  simp only [setSlot]

@[simp] lemma size_put (s : Stack) (offset width : Nat) (value : UInt64) :
    (s.put offset width value).bytes.size = s.bytes.size :=
  size_writeBytes ..

@[simp] lemma size_move (s : Stack) (target source size : Nat) :
    (s.move target source size).bytes.size = s.bytes.size :=
  size_fillBytes ..

lemma slot_eq_zero (h : ∀ i < 8, byteAt s.bytes (offset + i) = 0) : s.slot offset = 0 := by
  have hzero : (s.slot offset).toNat = 0 % 256 ^ 8 :=
    toNat_readBytes le_rfl fun i hi => by rw [h i hi, Nat.zero_div]; rfl
  exact UInt64.toNat_inj.1 hzero

end Stack

/-! ## The extent of the stack -/

lemma le_grown (hsize : 0 < size) (hfuel : extent ≤ size + fuel) :
    extent ≤ grown size extent fuel := by
  induction fuel generalizing size with
  | zero => simpa [grown] using hfuel
  | succ _ ih =>
    rw [grown]
    split
    · exact ih (by omega) (by omega)
    · omega

lemma size_le_grown (size extent fuel : Nat) : size ≤ grown size extent fuel := by
  induction fuel generalizing size with
  | zero => exact le_rfl
  | succ _ ih =>
    rw [grown]
    split
    · exact le_trans (by omega) (ih (size * 2))
    · exact le_rfl

namespace Stack

lemma extent_le_size {s : Stack} (h : 0 < s.bytes.size) (extent : Nat) :
    extent ≤ (s.setExtent extent).bytes.size := by
  have hle : extent ≤ grown s.bytes.size extent extent := le_grown h (by omega)
  simp only [setExtent, size_padBytes]
  omega

lemma size_le_size_setExtent (s : Stack) (extent : Nat) :
    s.bytes.size ≤ (s.setExtent extent).bytes.size := by
  simp [setExtent]

end Stack

end CompilerCore.Machine
