import CompilerCore.Text.Quoted

/-!
# Numbered lists
-/

namespace CompilerCore.Text

/-- Quoted texts between braces, each after its number under a label. -/
def listing (label : String) (texts : List String) : String :=
  let entry (index : Nat) (text : String) : String :=
    label ++ "(" ++ toString index ++ "): " ++ quote text
  "\x7b" ++ ", ".intercalate (texts.mapIdx entry) ++ "\x7d"

end CompilerCore.Text
