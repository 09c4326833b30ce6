import PullIngest.Text.Unprintable

/-!
# Quoted text

A text between double quotes on one line, as error messages show it.
-/

namespace PullIngest.Quoted

/-- Whether a character is shown as it is: it is neither a control nor without a glyph. -/
def isPrintable (c : Char) : Bool :=
  32 ≤ c.toNat && c.toNat ≠ 127 &&
    !(Unprintable.runs.any fun r => r.1 ≤ c.toNat && c.toNat ≤ r.2)

/-- A character between the quotes. -/
def encodeChar (c : Char) : List Char :=
  if c = '\x00' then ['\\', '0']
  else if c = '\t' then ['\\', 't']
  else if c = '\r' then ['\\', 'r']
  else if c = '\n' then ['\\', 'n']
  else if c = '"' then ['\\', '"']
  else if c = '\\' then ['\\', '\\']
  else if isPrintable c then [c]
  else ['\\', 'u', '\x7b'] ++ Nat.toDigits 16 c.toNat ++ ['\x7d']

/-- The quoted text. -/
def encode (s : String) : String :=
  String.ofList ('"' :: s.toList.flatMap encodeChar ++ ['"'])

end PullIngest.Quoted
