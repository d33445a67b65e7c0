import CompilerCore.Text.Invisible

/-!
# Quoted text

Text between double quotes, on one line: line breaks, tabs, the zero character, quotes and
backslashes have two-character spellings, and every other invisible character is spelled by its
hexadecimal number.
-/

namespace CompilerCore.Text

/-- The hexadecimal digits of `n`, lower case and without leading zeros. -/
def hex (n : Nat) : String := String.ofList (Nat.toDigits 16 n)

def escape (c : Char) : String :=
  if c = '\x00' then "\\0"
  else if c = '\t' then "\\t"
  else if c = '\n' then "\\n"
  else if c = '\r' then "\\r"
  else if c = '"' then "\\\""
  else if c = '\\' then "\\\\"
  else if isInvisible c then "\\u\x7b" ++ hex c.toNat ++ "\x7d"
  else String.singleton c

def quote (text : String) : String :=
  "\"" ++ String.join (text.toList.map escape) ++ "\""

example : quote "a\"b\n" = "\"a\\\"b\\n\"" := by decide +kernel

end CompilerCore.Text
