import PullIngest.Text.Hex

/-!
# TOML strings

A string is written in one of four styles: with or without escapes, on one line or on several.
`Style.best` picks the plainest style that can hold a text, `Style.encode` writes the text, and
`scanString` reads a string of any style.
-/

namespace PullIngest.Toml

/-- Space and tab. -/
def isBlank (c : Char) : Bool := c = ' ' || c = '\t'

/-- Whether a character may stand as it is in strings and comments: it is a tab or no control. -/
def isPlain (c : Char) : Bool := c = '\t' || 32 ≤ c.toNat && c.toNat ≠ 127

/-- A way to write strings. -/
structure Style where
  /-- Whether a backslash begins an escape. -/
  escapes : Bool
  /-- Whether there are three quotes on each side, and line ends between them. -/
  multiline : Bool
  deriving DecidableEq, Repr

namespace Style

/-- The quote of a style. -/
def quote (t : Style) : Char := if t.escapes then '"' else '\''

/-- The quotes on each side. -/
def delimiter (t : Style) : List Char := List.replicate (if t.multiline then 3 else 1) t.quote

/-! ### Writing -/

/-- The most times that a character stands in a row. -/
def longestRun (q : Char) (cs : List Char) : Nat :=
  (cs.foldl (fun (run, longest) c =>
    if c = q then (run + 1, max longest (run + 1)) else (0, longest)) (0, 0)).2

/-- The plainest style for a text. Escapes are used only where no style can do without them. -/
def best (cs : List Char) : Style :=
  let lines := cs.contains '\n'
  let backslash := cs.contains '\\'
  if cs.any fun c => c ≠ '\n' && !isPlain c then ⟨true, lines⟩
  else if !lines && !backslash && !cs.contains '"' then ⟨true, false⟩
  else if !lines && !cs.contains '\'' then ⟨false, false⟩
  else if !backslash && longestRun '"' cs ≤ 2 then ⟨true, true⟩
  else if longestRun '\'' cs ≤ 2 then ⟨false, true⟩
  else ⟨true, lines⟩

/-- A character other than a quote where there are escapes. -/
def escapeChar (multiline : Bool) (c : Char) : List Char :=
  if c = '\\' then ['\\', '\\']
  else if c = '\x08' then ['\\', 'b']
  else if c = '\t' then ['\\', 't']
  else if c = '\x0c' then ['\\', 'f']
  else if c = '\r' then ['\\', 'r']
  else if c = '\n' then if multiline then ['\n'] else ['\\', 'n']
  else if isPlain c then [c]
  else ['\\', 'u', '0', '0'] ++ (Hex.ofByte (.ofNat c.toNat)).map Char.toUpper

/-- A text where there are escapes. On one line every quote is escaped, on several lines only one
that would be the third in a row; `run` quotes stand right before the text. -/
def escape (multiline : Bool) (run : Nat) : List Char → List Char
  | [] => []
  | c :: r =>
    if c = '"' then
      if multiline ∧ run < 2 then '"' :: escape multiline (run + 1) r
      else '\\' :: '"' :: escape multiline 0 r
    else escapeChar multiline c ++ escape multiline 0 r

/-- A text between its quotes. One that has lines begins on a line of its own. -/
def encode (t : Style) (cs : List Char) : List Char :=
  t.delimiter ++ (if t.multiline && cs.contains '\n' then ['\n'] else [])
    ++ (if t.escapes then escape t.multiline 0 cs else cs) ++ t.delimiter

/-! ### Reading -/

/-- Where a reader stands inside a string. -/
inductive Mode where
  | plain
  /-- Behind a backslash. -/
  | escaped
  /-- In a number of which `missing` digits are still to come. -/
  | unicode (missing value : Nat)
  /-- Behind a backslash and blanks, where the line must end. -/
  | gap
  /-- Behind a line end after a backslash: blanks and line ends do not count. -/
  | skip
  deriving DecidableEq, Repr

/-- The character that a one-letter escape stands for. -/
def escapeLetter? (c : Char) : Option Char :=
  match c with
  | '"' => some '"'
  | '\\' => some '\\'
  | 'b' => some '\x08'
  | 'f' => some '\x0c'
  | 'n' => some '\n'
  | 'r' => some '\r'
  | 't' => some '\t'
  | _ => none

/-- Split behind the closing quotes. When more than three quotes stand in a row, up to two of them
belong to the text. -/
def scan (t : Style) (mode : Mode) (done : List Char) : List Char → Option (List Char × List Char)
  | [] => none
  | c :: r =>
    let skipped := isBlank c || c = '\n'
    match if mode = .skip ∧ !skipped then .plain else mode with
    | .plain =>
      if c = t.quote then
        if t.multiline then
          match (r.takeWhile (· = t.quote)).length with
          | n + 2 => some ((List.replicate (min n 2) c ++ done).reverse, r.drop (min (n + 2) 4))
          | _ => scan t .plain (c :: done) r
        else some (done.reverse, r)
      else if t.escapes ∧ c = '\\' then scan t .escaped done r
      else if isPlain c || t.multiline && c = '\n' then scan t .plain (c :: done) r
      else none
    | .escaped =>
      if c = 'u' then scan t (.unicode 4 0) done r
      else if c = 'U' then scan t (.unicode 8 0) done r
      else if t.multiline ∧ skipped then scan t (if c = '\n' then .skip else .gap) done r
      else
        match escapeLetter? c with
        | some c => scan t .plain (c :: done) r
        | none => none
    | .unicode missing value =>
      match Hex.value? c with
      | some digit =>
        let value := 16 * value + digit
        if 1 < missing then scan t (.unicode (missing - 1) value) done r
        else if value.isValidChar then scan t .plain (Char.ofNat value :: done) r
        else none
      | none => none
    | .gap => if skipped then scan t (if c = '\n' then .skip else .gap) done r else none
    | .skip => scan t .skip done r

end Style

/-- Split behind a string on one line. -/
def scanLineString : List Char → Option (List Char × List Char)
  | '"' :: r => Style.scan ⟨true, false⟩ .plain [] r
  | '\'' :: r => Style.scan ⟨false, false⟩ .plain [] r
  | _ => none

/-- Leave out a line end at the very beginning. -/
def dropLineEnd : List Char → List Char
  | '\n' :: r => r
  | r => r

/-- Split behind a string of any style. -/
def scanString : List Char → Option (List Char × List Char)
  | '"' :: '"' :: '"' :: r => Style.scan ⟨true, true⟩ .plain [] (dropLineEnd r)
  | '\'' :: '\'' :: '\'' :: r => Style.scan ⟨false, true⟩ .plain [] (dropLineEnd r)
  | r => scanLineString r

end PullIngest.Toml
