/-!
# Terminal colours

Printers mark keywords, names and numbers with a colour.  Painting is switched on and off as a whole;
painted text ends with a reset, and a reset that is part of the text resumes the colour.
-/

namespace CompilerCore.Text

/-- The colours that printers use. -/
inductive Colour where
  | red
  | yellow
  | blue
  | magenta
  | cyan
  | white
  | brightRed
  deriving DecidableEq, Repr

namespace Colour

/-- The control sequence that ends every colour. -/
def reset : String := "\x1b[0m"

def start : Colour → String
  | red => "\x1b[31m"
  | yellow => "\x1b[33m"
  | blue => "\x1b[34m"
  | magenta => "\x1b[35m"
  | cyan => "\x1b[36m"
  | white => "\x1b[37m"
  | brightRed => "\x1b[91m"

/-- Colours `text`, or leaves it as it is when painting is off. -/
def paint (painting : Bool) (c : Colour) (text : String) : String :=
  if painting then c.start ++ text.replace reset (reset ++ c.start) ++ reset else text

end Colour

end CompilerCore.Text
