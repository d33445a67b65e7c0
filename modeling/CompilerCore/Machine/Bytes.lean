/-!
# Packed bytes

The machine's memory is a packed array of bytes.  It is read and written at places given by number:
a place outside the memory reads as zero, and writing there changes nothing.
-/

namespace CompilerCore.Machine

/-! ## One byte -/

/-- The byte at a place; outside the memory there are zeros. -/
def byteAt (bytes : ByteArray) (i : Nat) : UInt8 :=
  if h : i < bytes.size then bytes[i] else 0

/-- Puts a byte at a place inside the memory. -/
def setByte (bytes : ByteArray) (i : Nat) (b : UInt8) : ByteArray :=
  if h : i < bytes.size then bytes.set i b h else bytes

@[simp] theorem size_setByte (bytes : ByteArray) (i : Nat) (b : UInt8) :
    (setByte bytes i b).size = bytes.size := by
  unfold setByte
  split
  · exact Array.size_set _
  · rfl

theorem byteAt_setByte (bytes : ByteArray) (i j : Nat) (b : UInt8) :
    byteAt (setByte bytes i b) j = if i = j ∧ i < bytes.size then b else byteAt bytes j := by
  by_cases hi : i < bytes.size
  · have hset : setByte bytes i b = bytes.set i b hi := dif_pos hi
    have hsize : (bytes.set i b hi).size = bytes.size := Array.size_set _
    by_cases hj : j < bytes.size
    · have hj' : j < (bytes.set i b hi).size := hsize ▸ hj
      simp only [byteAt, hset, hj, hj', hi, dif_pos, and_true]
      exact Array.getElem_set hi hj'
    · have hj' : ¬j < (bytes.set i b hi).size := hsize ▸ hj
      have hne : i ≠ j := fun h => hj (h ▸ hi)
      simp [byteAt, hset, hj, hj', hne]
  · simp [setByte, hi]

/-! ## Little-endian words -/

/-- The number that `width` bytes from `offset` on stand for. -/
def readBytes (bytes : ByteArray) (offset : Nat) : Nat → UInt64
  | 0 => 0
  | width + 1 => (byteAt bytes offset).toUInt64 ||| (readBytes bytes (offset + 1) width <<< 8)

/-- Puts the low `width` bytes of `value` at `offset`. -/
def writeBytes (bytes : ByteArray) (offset : Nat) (value : UInt64) : Nat → ByteArray
  | 0 => bytes
  | width + 1 => writeBytes (setByte bytes offset value.toUInt8) (offset + 1) (value >>> 8) width

@[simp] theorem size_writeBytes (bytes : ByteArray) (offset : Nat) (value : UInt64) (width : Nat) :
    (writeBytes bytes offset value width).size = bytes.size := by
  induction width generalizing bytes offset value with
  | zero => rfl
  | succ width ih => simp [writeBytes, ih]

/-! ## Stretches -/

def fillBytes (bytes : ByteArray) (offset : Nat) : List UInt8 → ByteArray
  | [] => bytes
  | b :: rest => fillBytes (setByte bytes offset b) (offset + 1) rest

@[simp] theorem size_fillBytes (bytes : ByteArray) (offset : Nat) (data : List UInt8) :
    (fillBytes bytes offset data).size = bytes.size := by
  induction data generalizing bytes offset with
  | nil => rfl
  | cons b rest ih => simp [fillBytes, ih]

def zeroBytes (bytes : ByteArray) (offset : Nat) : Nat → ByteArray
  | 0 => bytes
  | size + 1 => zeroBytes (setByte bytes offset 0) (offset + 1) size

@[simp] theorem size_zeroBytes (bytes : ByteArray) (offset size : Nat) :
    (zeroBytes bytes offset size).size = bytes.size := by
  induction size generalizing bytes offset with
  | zero => rfl
  | succ size ih => simp [zeroBytes, ih]

/-- The bytes of the memory among the `size` from `offset` on. -/
def sliceBytes (bytes : ByteArray) (offset size : Nat) : List UInt8 :=
  (List.range (min size (bytes.size - offset))).map fun i => byteAt bytes (offset + i)

def padBytes (bytes : ByteArray) : Nat → ByteArray
  | 0 => bytes
  | count + 1 => padBytes (bytes.push 0) count

@[simp] theorem size_padBytes (bytes : ByteArray) (count : Nat) :
    (padBytes bytes count).size = bytes.size + count := by
  induction count generalizing bytes with
  | zero => rfl
  | succ count ih => rw [padBytes, ih, ByteArray.size_push]; omega

theorem byteAt_push_zero (bytes : ByteArray) (i : Nat) : byteAt (bytes.push 0) i = byteAt bytes i := by
  unfold byteAt
  by_cases h : i < bytes.size
  · have h' : i < (bytes.push 0).size := by rw [ByteArray.size_push]; omega
    rw [dif_pos h, dif_pos h']
    exact Array.getElem_push_lt h
  · rw [dif_neg h]
    split
    · next h' =>
      have hi : i = bytes.size := by rw [ByteArray.size_push] at h'; omega
      subst hi
      exact Array.getElem_push_eq
    · rfl

@[simp] theorem byteAt_padBytes (bytes : ByteArray) (count i : Nat) :
    byteAt (padBytes bytes count) i = byteAt bytes i := by
  induction count generalizing bytes with
  | zero => rfl
  | succ count ih => rw [padBytes, ih, byteAt_push_zero]

end CompilerCore.Machine
