import CompilerCore.Types.Table

/-!
# Settings of a compilation
-/

namespace CompilerCore

structure Config where
  /-- What the size of every struct and union member is rounded up to. -/
  alignment : UInt64 := 8
  pointerSize : UInt64 := 8
  /-- How often analysis may go over the program. -/
  maxWaves : Nat := 64
  /-- How often each stage of lowering may go over a function. -/
  maxLoweringPasses : Nat := 32
  /-- The memory that a machine starts with, in bytes. -/
  stackSize : Nat := 4096
  /-- How many instructions a run may perform. -/
  maxSteps : Nat := 1000000
  /-- Whether unused symbols are reported. -/
  warnUnused : Bool := true
  deriving Repr

/-- The type table that a compilation starts with. -/
def Config.typeTable (c : Config) : TypeTable := TypeTable.start c.alignment c.pointerSize

end CompilerCore
