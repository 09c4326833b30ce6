import PullIngest.Toml.Style

/-!
# TOML scalars

Strings, integers, booleans, floats and moments in time. A float and a moment are kept as they are
written: they are only checked. `Scalar.ofToken?` reads everything that is no string.
-/

namespace PullIngest.Toml

/-- A value without parts. -/
inductive Scalar where
  | string (cs : List Char)
  | integer (n : Int)
  | boolean (b : Bool)
  | float (literal : List Char)
  /-- A date, a time of day or both. -/
  | moment (literal : List Char)
  deriving DecidableEq, Repr

/-- The integers that a document can hold: those of 64 bits. -/
def isInteger64 (n : Int) : Bool := decide (-0x8000000000000000 ≤ n) && decide (n < 0x8000000000000000)

/-- The text of a scalar. An integer that is too large has none. -/
def Scalar.text? : Scalar → Option (List Char)
  | .string cs => some ((Style.best cs).encode cs)
  | .integer n => if isInteger64 n then some (toString n).toList else none
  | .boolean b => some (toString b).toList
  | .float literal => some literal
  | .moment literal => some literal

/-! ### Integers -/

/-- The value of a digit in a base of at most sixteen. -/
def digit? (base : Nat) (c : Char) : Option Nat := (Hex.value? c).filter (· < base)

/-- Read digits after those already worth `n`; an underscore may stand between two digits. -/
def extendDigits? (base n : Nat) : List Char → Option Nat
  | [] => some n
  | '_' :: c :: r => (digit? base c).bind fun d => extendDigits? base (base * n + d) r
  | c :: r => (digit? base c).bind fun d => extendDigits? base (base * n + d) r

/-- The number written by one or more digits. -/
def digits? (base : Nat) : List Char → Option Nat
  | [] => none
  | c :: r => (digit? base c).bind fun d => extendDigits? base d r

/-- The number written by decimal digits of which no zero leads another one. -/
def decimal? (cs : List Char) : Option Nat :=
  match cs with
  | '0' :: _ :: _ => none
  | cs => digits? 10 cs

/-- An optional sign and what follows it. -/
def scanSign : List Char → Option Char × List Char
  | '+' :: r => (some '+', r)
  | '-' :: r => (some '-', r)
  | r => (none, r)

/-- An integer of any size. Only decimal digits may have a sign. -/
def integer? (token : List Char) : Option Int :=
  match token with
  | '0' :: 'x' :: r => (digits? 16 r).map Int.ofNat
  | '0' :: 'o' :: r => (digits? 8 r).map Int.ofNat
  | '0' :: 'b' :: r => (digits? 2 r).map Int.ofNat
  | token =>
    let (sign, r) := scanSign token
    (decimal? r).map fun n => if sign = some '-' then -n else n

/-! ### Floats -/

/-- The exponent behind an `e`. -/
def exponent? (cs : List Char) : Option Int :=
  let (sign, r) := scanSign cs
  (digits? 10 r).map fun n => if sign = some '-' then -n else n

/-- Digits before the point, digits behind it, and the exponent. -/
structure FloatParts where
  whole : List Char
  fraction : List Char
  exponent : Int

/-- Whether a character may stand in a row of digits. -/
def isDigitOrMark (c : Char) : Bool := c.isDigit || c = '_'

/-- The parts of a float without its sign. It has a fraction, an exponent or both. -/
def floatParts? (cs : List Char) : Option FloatParts := do
  let (whole, r) := cs.span isDigitOrMark
  let _ ← decimal? whole
  let isExponent := fun c => c = 'e' ∨ c = 'E'
  match r with
  | '.' :: r =>
    let (fraction, r) := r.span isDigitOrMark
    let _ ← digits? 10 fraction
    match r with
    | [] => some ⟨whole, fraction, 0⟩
    | c :: r => if isExponent c then (exponent? r).map (⟨whole, fraction, ·⟩) else none
  | c :: r => if isExponent c then (exponent? r).map (⟨whole, [], ·⟩) else none
  | [] => none

/-- Whether a float is too large for 64 bits: it is at least as near to `2 ^ 1024` as to the number
before it. Only an exponent of moderate size needs the exact comparison. -/
def FloatParts.overflows (p : FloatParts) : Bool :=
  let digits := (p.whole ++ p.fraction).filter Char.isDigit
  let significant := digits.dropWhile (· = '0')
  let scale := p.exponent - (p.fraction.filter Char.isDigit).length
  let magnitude := scale + significant.length
  if significant = [] ∨ magnitude < 300 then false
  else if 400 < magnitude then true
  else
    let n := (digits? 10 significant).getD 0
    Nat.pow 2 1024 - Nat.pow 2 970 ≤
      (if scale < 0 then n / Nat.pow 10 (-scale).toNat else n * Nat.pow 10 scale.toNat)

/-- Whether a token is a float. A positive one must not be too large. -/
def isFloat (token : List Char) : Bool :=
  let (sign, r) := scanSign token
  if r = "inf".toList ∨ r = "nan".toList then true
  else
    match floatParts? r with
    | some p => sign = some '-' || !p.overflows
    | none => false

/-! ### Moments -/

/-- Split behind a character that must come first. -/
def expect? (c : Char) : List Char → Option (List Char)
  | [] => none
  | a :: r => if a = c then some r else none

/-- Split behind exactly `n` decimal digits. -/
def scanDigits (n : Nat) (s : List Char) : Option (Nat × List Char) :=
  let ds := s.take n
  if ds.length = n ∧ ds.all Char.isDigit then (digits? 10 ds).map (·, s.drop n) else none

/-- The number of days of a month. -/
def daysInMonth (year month : Nat) : Nat :=
  if month = 2 then
    if year % 4 = 0 ∧ (year % 100 ≠ 0 ∨ year % 400 = 0) then 29 else 28
  else if month = 4 ∨ month = 6 ∨ month = 9 ∨ month = 11 then 30
  else 31

/-- Split behind a date of the calendar. -/
def scanDate (s : List Char) : Option (List Char) := do
  let (year, r) ← scanDigits 4 s
  let (month, r) ← scanDigits 2 (← expect? '-' r)
  let (day, r) ← scanDigits 2 (← expect? '-' r)
  if 1 ≤ month ∧ month ≤ 12 ∧ 1 ≤ day ∧ day ≤ daysInMonth year month then some r else none

/-- Split behind a time of day. The sixtieth second is one that was put in. -/
def scanTime (s : List Char) : Option (List Char) := do
  let (hour, r) ← scanDigits 2 s
  let (minute, r) ← scanDigits 2 (← expect? ':' r)
  let (second, r) ← scanDigits 2 (← expect? ':' r)
  if 24 ≤ hour ∨ 60 ≤ minute ∨ 61 ≤ second then none
  else
    match r with
    | '.' :: r => if (r.takeWhile Char.isDigit).isEmpty then none else some (r.dropWhile Char.isDigit)
    | r => some r

/-- Whether a text is the offset of a time zone. -/
def isOffset : List Char → Bool
  | [] => false
  | c :: r =>
    if c = 'Z' ∨ c = 'z' then r.isEmpty
    else if c = '+' ∨ c = '-' then
      match scanDigits 2 r with
      | some (hour, ':' :: r) =>
        match scanDigits 2 r with
        | some (minute, []) => hour < 24 && minute < 60
        | _ => false
      | _ => false
    else false

/-- Whether a token is a date, a time or both; between the two stands a `T` or a space, and only
both together may have an offset. -/
def isMoment (token : List Char) : Bool :=
  match scanDate token with
  | some [] => true
  | some (c :: r) =>
    if c = 'T' ∨ c = 't' ∨ c = ' ' then
      match scanTime r with
      | some r => r.isEmpty || isOffset r
      | none => false
    else false
  | none => scanTime token = some []

/-! ### Reading -/

/-- The scalar that a token stands for. -/
def Scalar.ofToken? (token : List Char) : Option Scalar :=
  if token = "true".toList then some (.boolean true)
  else if token = "false".toList then some (.boolean false)
  else
    match integer? token with
    | some n => if isInteger64 n then some (.integer n) else none
    | none =>
      if isMoment token then some (.moment token)
      else if isFloat token then some (.float token)
      else none

/-- Whether a character may stand in a token. -/
def isTokenChar (c : Char) : Bool :=
  c.isAlphanum || c = '+' || c = '-' || c = '_' || c = '.' || c = ':'

/-- Split behind a token. A space between a date and a time belongs to it. -/
def scanToken (s : List Char) : List Char × List Char :=
  let (token, r) := s.span isTokenChar
  match r with
  | ' ' :: c :: r =>
    if scanDate token = some [] ∧ c.isDigit then
      let (time, r) := (c :: r).span isTokenChar
      (token ++ ' ' :: time, r)
    else (token, ' ' :: c :: r)
  | r => (token, r)

/-- Split behind a scalar. -/
def scanScalar (s : List Char) : Option (Scalar × List Char) :=
  match s with
  | '"' :: _ => (scanString s).map fun (cs, r) => (.string cs, r)
  | '\'' :: _ => (scanString s).map fun (cs, r) => (.string cs, r)
  | s =>
    let (token, r) := scanToken s
    (Scalar.ofToken? token).map (·, r)

end PullIngest.Toml
