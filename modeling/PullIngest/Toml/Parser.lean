import PullIngest.Toml.Value

/-!
# Parsing TOML

`parse?` accepts exactly the documents of TOML 1.0, with a limit on nesting. It reads a document line
by line and adds each line to what came before.
-/

namespace PullIngest.Toml

/-- How many parts a dotted key may have, and how deep arrays and inline tables may be nested. -/
def maxDepth : Nat := 79

/-! ### Between values -/

/-- Leave out blanks. -/
def skipBlanks (s : List Char) : List Char := s.dropWhile isBlank

/-- Leave out blanks, line ends and comments. -/
def skipLines (inComment : Bool) : List Char → List Char
  | [] => []
  | c :: r =>
    if c = '\n' then skipLines false r
    else if inComment then if isPlain c then skipLines true r else c :: r
    else if isBlank c then skipLines false r
    else if c = '#' then skipLines true r
    else c :: r

/-- Leave out a comment up to the end of its line. -/
def skipComment : List Char → List Char
  | '#' :: r => r.dropWhile isPlain
  | r => r

/-- Split behind the end of a line, where only blanks and a comment may stand. -/
def scanLineEnd (s : List Char) : Option (List Char) :=
  match skipComment (skipBlanks s) with
  | [] => some []
  | '\n' :: r => some r
  | _ => none

/-! ### Keys -/

/-- Whether a character may stand in a key without quotes. -/
def isBareChar (c : Char) : Bool := c.isAlphanum || c = '_' || c = '-'

/-- Split behind one part of a key. -/
def scanKeyPart (s : List Char) : Option (Key × List Char) :=
  match s.span isBareChar with
  | ([], _) => scanLineString s
  | (k, r) => some (k, r)

/-- Split behind a dotted key of at most `room` parts, and the blanks around it. -/
def scanKey : (room : Nat) → List Char → Option (KeyPath × List Char)
  | 0, _ => none
  | room + 1, s => do
    let (k, r) ← scanKeyPart (skipBlanks s)
    match skipBlanks r with
    | '.' :: r =>
      let (path, r) ← scanKey room r
      some (⟨k :: path.above, path.key⟩, r)
    | r => some (⟨[], k⟩, r)

/-- Split behind a key, the sign behind it and blanks. -/
def scanKeySign (s : List Char) : Option (KeyPath × List Char) := do
  let (path, r) ← scanKey maxDepth s
  some (path, skipBlanks (← expect? '=' r))

/-! ### Values -/

mutual

/-- Split behind a value that is nested at most `room` deep, of which no more than `fuel` characters
are read. -/
def scanValue : (fuel room : Nat) → List Char → Option (Node × List Char)
  | 0, _, _ => none
  | fuel + 1, room, s =>
    match s, room with
    | '[' :: _, 0 => none
    | '[' :: r, room + 1 => scanItems fuel room [] (skipLines false r)
    | '\x7b' :: _, 0 => none
    | '\x7b' :: r, room + 1 =>
      match skipBlanks r with
      | '\x7d' :: r => some (.inline ∅, r)
      | r => scanEntries fuel room ∅ r
    | s, _ => (scanScalar s).map fun (v, r) => (.scalar v, r)

/-- Split behind the bracket that closes an array. A comma may stand right before it. -/
def scanItems : (fuel room : Nat) → (done : List Node) → List Char → Option (Node × List Char)
  | 0, _, _, _ => none
  | fuel + 1, room, done, s =>
    match s with
    | ']' :: r => some (.array done.reverse, r)
    | s => do
      let (v, r) ← scanValue fuel room s
      match skipLines false r with
      | ',' :: r => scanItems fuel room (v :: done) (skipLines false r)
      | ']' :: r => some (.array (v :: done).reverse, r)
      | _ => none

/-- Split behind the brace that closes an inline table. A comma must be followed by an entry. -/
def scanEntries : (fuel room : Nat) → Entries → List Char → Option (Node × List Char)
  | 0, _, _, _ => none
  | fuel + 1, room, t, s => do
    let (path, r) ← scanKeySign s
    let (v, r) ← scanValue fuel room r
    let t ← t.assign path.above path.key v
    match skipBlanks r with
    | ',' :: r => scanEntries fuel room t r
    | '\x7d' :: r => some (.inline t, r)
    | _ => none

end

/-! ### Documents -/

/-- Split behind a header or an assignment. -/
def scanStatement (fuel : Nat) (s : List Char) : Option (Statement × List Char) :=
  match s with
  | '[' :: '[' :: r => do
    let (path, r) ← scanKey maxDepth r
    some (.element path, ← expect? ']' (← expect? ']' r))
  | '[' :: r => do
    let (path, r) ← scanKey maxDepth r
    some (.table path, ← expect? ']' r)
  | s => do
    let (path, r) ← scanKeySign s
    let (v, r) ← scanValue fuel maxDepth r
    some (.assign path v, r)

/-- Add up to `fuel` lines to a document, to the end of the text. -/
def addLines : (fuel : Nat) → Document → List Char → Option Document
  | 0, _, _ => none
  | fuel + 1, d, s =>
    match skipLines false s with
    | [] => some d
    | s => do
      let (statement, r) ← scanStatement (s.length + 1) s
      addLines fuel (← d.add? statement) (← scanLineEnd r)

/-- Write each carriage return that comes before a line feed together with it as one line feed. -/
def joinLineEnds : List Char → List Char
  | '\r' :: '\n' :: r => '\n' :: joinLineEnds r
  | c :: r => c :: joinLineEnds r
  | [] => []

/-- Leave out a byte order mark. -/
def dropMark : List Char → List Char
  | '\ufeff' :: r => r
  | r => r

/-- What a document holds. -/
def parse? (text : List Char) : Option Entries :=
  let s := joinLineEnds (dropMark text)
  (addLines (s.length + 1) {} s).map Document.root

end PullIngest.Toml
