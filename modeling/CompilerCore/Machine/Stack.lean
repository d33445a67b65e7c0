import CompilerCore.Machine.Bytes
import CompilerCore.Machine.Fault

/-!
# The address space

Addresses are split into regions.  Only the stack region has memory behind it: code addresses name
instructions and cannot be read, and the heap region is reserved.  Reads and writes are little
endian and stay below the end of the active frame.
-/

namespace CompilerCore.Machine

/-- Addresses below are never valid. -/
def lowestAddress : UInt64 := 0x1000

def codeBase : UInt64 := 0x100000

def stackBase : UInt64 := 0x10000000

def heapBase : UInt64 := 0x40000000

structure Stack where
  bytes : ByteArray
  extent : Nat

/-- The least product of `size` and a power of two that is at least `extent`, within `fuel` doublings. -/
def grown (size extent : Nat) : Nat → Nat
  | 0 => size
  | fuel + 1 => if size < extent then grown (size * 2) extent fuel else size

namespace Stack

/-- An empty stack with room for at least eight bytes. -/
def empty (size : Nat) : Stack := ⟨padBytes .empty (max size 8), 0⟩

def capacity (s : Stack) : Nat := s.bytes.size

/-- Moves the end of the active frame, doubling the memory until it fits.  The sizes are words as long
as the extent is at most `2 ^ 63`. -/
def setExtent (s : Stack) (extent : Nat) : Stack :=
  let size := grown s.bytes.size extent extent
  ⟨padBytes s.bytes (size - s.bytes.size), extent⟩

def addressOf (offset : Nat) : UInt64 := stackBase + UInt64.ofNat offset

/-- The place of the stack where `size` bytes at `address` are, when they lie below the extent. -/
def locate (s : Stack) (address size : UInt64) : Except Fault Nat :=
  if address < lowestAddress then .error (.invalidAddress address)
  else if codeBase ≤ address ∧ address < stackBase then .error (.codeAccess address)
  else if address < codeBase ∨ heapBase ≤ address then .error (.unmapped address)
  else
    let offset := address - stackBase
    if UInt64.ofNat s.extent < offset + size then .error (.outOfFrame address)
    else .ok offset.toNat

/-- The place of `size` bytes at `address`, none of which lies past the extent.  The end that `locate`
compares is a word, which starts again at zero past the last one; the bytes themselves do not. -/
def span (s : Stack) (address : UInt64) (size : Nat) : Except Fault Nat := do
  let offset ← s.locate address (UInt64.ofNat size)
  if s.extent < offset + size then .error (.overrun address) else return offset

/-- The places of two runs of `size` bytes.  Both are located before either is found to overrun. -/
def spans (s : Stack) (target source : UInt64) (size : Nat) : Except Fault (Nat × Nat) := do
  let place ← s.locate target (UInt64.ofNat size)
  let start ← s.locate source (UInt64.ofNat size)
  if s.extent < max place start + size then .error (.overrun target) else return (place, start)

/-- The bytes of a word that a read or write of `width` bytes touches. -/
def clip (width : Nat) : Nat := min width 8

/-- Reads `width` bytes and extends them by zeros. -/
def read (s : Stack) (address : UInt64) (width : Nat) : Except Fault UInt64 :=
  (s.span address width).map fun offset => readBytes s.bytes offset (clip width)

def put (s : Stack) (offset width : Nat) (value : UInt64) : Stack :=
  { s with bytes := writeBytes s.bytes offset value (clip width) }

def write (s : Stack) (address : UInt64) (width : Nat) (value : UInt64) : Except Fault Stack :=
  (s.span address width).map fun offset => s.put offset width value

/-- Puts the `size` bytes from `source` on at `target`; all are read before the first is written. -/
def move (s : Stack) (target source size : Nat) : Stack :=
  { s with bytes := fillBytes s.bytes target (sliceBytes s.bytes source size) }

def copy (s : Stack) (target source size : UInt64) : Except Fault Stack := do
  let (place, start) ← s.spans target source size.toNat
  return s.move place start size.toNat

def slot (s : Stack) (offset : Nat) : UInt64 := readBytes s.bytes offset 8

def setSlot (s : Stack) (offset : Nat) (value : UInt64) : Stack :=
  { s with bytes := writeBytes s.bytes offset value 8 }

def fill (s : Stack) (offset : Nat) (data : List UInt8) : Stack :=
  { s with bytes := fillBytes s.bytes offset data }

def zero (s : Stack) (offset size : Nat) : Stack :=
  { s with bytes := zeroBytes s.bytes offset size }

end Stack

end CompilerCore.Machine
