/-!
# Repeated passes

A pass changes a state and says how many changes it made.  Passes are repeated until one makes
none, or a limit is reached.
-/

namespace CompilerCore

/-- Repeats a pass at most `limit` times.  The result is the number of all changes. -/
def repeatPass {σ : Type} (pass : σ → Nat × σ) : Nat → σ → Nat × σ
  | 0, s => (0, s)
  | limit + 1, s =>
    let (changes, s) := pass s
    if changes = 0 then (0, s)
    else
      let (more, s) := repeatPass pass limit s
      (changes + more, s)

end CompilerCore
