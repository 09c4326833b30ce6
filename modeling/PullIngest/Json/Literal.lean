import PullIngest.Text.Hex

/-!
# JSON literals

String bodies and numbers. `escape` writes a string body with the fewest escapes; `unescape?`
reads any body, combining the two halves of a surrogate pair and refusing a half that stands
alone. `scanString` finds where a body ends and `scanNumber` where a number ends.
-/

namespace PullIngest.Json

/-! ### Writing string bodies -/

/-- A character in a string body: quotes, backslashes and controls are escaped. -/
def escapeChar (c : Char) : List Char :=
  if c = '"' then ['\\', '"']
  else if c = '\\' then ['\\', '\\']
  else if c = '\x08' then ['\\', 'b']
  else if c = '\x0c' then ['\\', 'f']
  else if c = '\n' then ['\\', 'n']
  else if c = '\r' then ['\\', 'r']
  else if c = '\t' then ['\\', 't']
  else if c.toNat < 32 then ['\\', 'u', '0', '0'] ++ Hex.ofByte (.ofNat c.toNat)
  else [c]

/-- A string body. -/
def escape (cs : List Char) : List Char := cs.flatMap escapeChar

/-! ### Reading string bodies -/

/-- The character that a one-letter escape stands for. -/
def escapeLetter? (c : Char) : Option Char :=
  match c with
  | '"' => some '"'
  | '\\' => some '\\'
  | '/' => some '/'
  | 'b' => some '\x08'
  | 'f' => some '\x0c'
  | 'n' => some '\n'
  | 'r' => some '\r'
  | 't' => some '\t'
  | _ => none

/-- Where a reader stands inside a string body: between characters, behind a backslash, or with
`missing` hexadecimal digits to come after those worth `value`. -/
inductive Mode where
  | plain
  | escaped
  | unicode (missing value : Nat)
  deriving DecidableEq, Repr

/-- A partly read string body: the characters so far, newest first, and the first half of a
surrogate pair that waits for its second. -/
structure Reading where
  done : List Char
  half : Option Nat
  mode : Mode

/-- Add a character that is complete; none may come while half a pair is waiting. -/
def Reading.push (c : Char) (r : Reading) : Option Reading :=
  match r.half with
  | none => some ⟨c :: r.done, none, .plain⟩
  | some _ => none

/-- Add a UTF-16 unit. -/
def Reading.pushUnit (u : Nat) (r : Reading) : Option Reading :=
  match r.half with
  | none =>
    if 0xD800 ≤ u ∧ u < 0xDC00 then some ⟨r.done, some u, .plain⟩
    else if 0xDC00 ≤ u ∧ u < 0xE000 then none
    else some ⟨Char.ofNat u :: r.done, none, .plain⟩
  | some h =>
    if 0xDC00 ≤ u ∧ u < 0xE000 then
      some ⟨Char.ofNat (0x10000 + (h - 0xD800) * 0x400 + (u - 0xDC00)) :: r.done, none, .plain⟩
    else none

/-- Read one more character of a body. -/
def Reading.step (r : Reading) (c : Char) : Option Reading :=
  match r.mode with
  | .plain => if c = '\\' then some { r with mode := .escaped } else r.push c
  | .escaped =>
    if c = 'u' then some { r with mode := .unicode 4 0 }
    else (escapeLetter? c).bind r.push
  | .unicode missing value =>
    (Hex.value? c).bind fun d =>
      if missing ≤ 1 then r.pushUnit (16 * value + d)
      else some { r with mode := .unicode (missing - 1) (16 * value + d) }

/-- The characters of a complete body. -/
def Reading.finish (r : Reading) : Option (List Char) :=
  match r.mode, r.half with
  | .plain, none => some r.done.reverse
  | _, _ => none

/-- The characters that a string body stands for. -/
def unescape? (body : List Char) : Option (List Char) :=
  (body.foldlM Reading.step ⟨[], none, .plain⟩).bind Reading.finish

/-! ### Scanning -/

/-- Split behind the closing quote. Escapes must be well formed and controls are refused; whether
surrogates pair up is left to `unescape?`. -/
def scanString (mode : Mode) (done : List Char) : List Char → Option (List Char × List Char)
  | [] => none
  | c :: r =>
    match mode with
    | .plain =>
      if c = '"' then some (done.reverse, r)
      else if c = '\\' then scanString .escaped (c :: done) r
      else if c.toNat < 32 then none
      else scanString .plain (c :: done) r
    | .escaped =>
      if c = 'u' then scanString (.unicode 4 0) (c :: done) r
      else if (escapeLetter? c).isSome then scanString .plain (c :: done) r
      else none
    | .unicode missing value =>
      if (Hex.value? c).isSome then
        scanString (if missing ≤ 1 then .plain else .unicode (missing - 1) value) (c :: done) r
      else none

/-- Space, tab, line feed and carriage return. -/
def isBlank (c : Char) : Bool := c = ' ' || c = '\t' || c = '\n' || c = '\r'

/-- An optional minus sign. -/
def scanSign : List Char → List Char × List Char
  | '-' :: r => (['-'], r)
  | r => ([], r)

/-- The digits before the point: no zero leads another digit. -/
def scanWhole (s : List Char) : Option (List Char × List Char) :=
  match s.span Char.isDigit with
  | ([], _) => none
  | ('0' :: _ :: _, _) => none
  | (ds, r) => some (ds, r)

/-- The point and the digits behind it, if there is a point. -/
def scanFraction : List Char → Option (List Char × List Char)
  | '.' :: r =>
    match r.span Char.isDigit with
    | ([], _) => none
    | (ds, r) => some ('.' :: ds, r)
  | r => some ([], r)

/-- The optional sign of an exponent. -/
def scanExponentSign : List Char → List Char × List Char
  | '+' :: r => (['+'], r)
  | r => scanSign r

/-- The exponent, if there is one. -/
def scanExponent : List Char → Option (List Char × List Char)
  | c :: r =>
    if c = 'e' ∨ c = 'E' then
      let (sign, r) := scanExponentSign r
      match r.span Char.isDigit with
      | ([], _) => none
      | (ds, r) => some (c :: sign ++ ds, r)
    else some ([], c :: r)
  | [] => some ([], [])

/-- Split behind a number. -/
def scanNumber (s : List Char) : Option (List Char × List Char) := do
  let (sign, r) := scanSign s
  let (whole, r) ← scanWhole r
  let (fraction, r) ← scanFraction r
  let (exponent, r) ← scanExponent r
  some (sign ++ whole ++ fraction ++ exponent, r)

end PullIngest.Json
