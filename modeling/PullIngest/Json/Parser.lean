import PullIngest.Json.Literal
import PullIngest.Json.Value

/-!
# Parsing JSON

`Value.ofText?` accepts exactly one document with blanks around it. Nesting and the range of
numbers are not limited.
-/

namespace PullIngest.Json

/-- Split behind the blanks. -/
def scanBlanks (s : List Char) : List Char × List Char := s.span isBlank

/-- The body of a key or string whose opening quote comes first. -/
def scanQuoted : List Char → Option (List Char × List Char)
  | '"' :: r => scanString .plain [] r
  | _ => none

/-- The blanks before a key, the key, and the blanks around the colon. -/
def scanKey (before : List Char) (s : List Char) :
    Option ((Value → List Char → Member Value) × List Char) := do
  let (key, r) ← scanQuoted s
  let (afterKey, r) := scanBlanks r
  match r with
  | ':' :: r =>
    let (beforeValue, r) := scanBlanks r
    some (fun v after => ⟨before, key, afterKey, beforeValue, v, after⟩, r)
  | _ => none

mutual

/-- Split behind a value, of which no more than `fuel` characters are read. -/
def scanValue : (fuel : Nat) → List Char → Option (Value × List Char)
  | 0, _ => none
  | fuel + 1, s =>
    match s with
    | 'n' :: 'u' :: 'l' :: 'l' :: r => some (.null, r)
    | 't' :: 'r' :: 'u' :: 'e' :: r => some (.bool true, r)
    | 'f' :: 'a' :: 'l' :: 's' :: 'e' :: r => some (.bool false, r)
    | '"' :: r => (scanString .plain [] r).map fun (body, r) => (.string body, r)
    | '[' :: r =>
      let (gap, r) := scanBlanks r
      match r with
      | ']' :: r => some (.emptyArray gap, r)
      | r => do
        let (v, r) ← scanValue fuel r
        let (after, r) := scanBlanks r
        let (rest, r) ← scanItems fuel [] r
        some (.array ⟨gap, v, after⟩ rest, r)
    | '\x7b' :: r =>
      let (gap, r) := scanBlanks r
      match r with
      | '\x7d' :: r => some (.emptyObject gap, r)
      | r => do
        let (member, r) ← scanKey gap r
        let (v, r) ← scanValue fuel r
        let (after, r) := scanBlanks r
        let (rest, r) ← scanMembers fuel [] r
        some (.object (member v after) rest, r)
    | s => (scanNumber s).map fun (literal, r) => (.number literal, r)

/-- Split behind the bracket that closes an array, keeping further elements. -/
def scanItems : (fuel : Nat) → (done : List (Item Value)) → List Char →
    Option (List (Item Value) × List Char)
  | 0, _, _ => none
  | fuel + 1, done, s =>
    match s with
    | ']' :: r => some (done.reverse, r)
    | ',' :: r => do
      let (before, r) := scanBlanks r
      let (v, r) ← scanValue fuel r
      let (after, r) := scanBlanks r
      scanItems fuel (⟨before, v, after⟩ :: done) r
    | _ => none

/-- Split behind the brace that closes an object, keeping further members. -/
def scanMembers : (fuel : Nat) → (done : List (Member Value)) → List Char →
    Option (List (Member Value) × List Char)
  | 0, _, _ => none
  | fuel + 1, done, s =>
    match s with
    | '\x7d' :: r => some (done.reverse, r)
    | ',' :: r => do
      let (before, r) := scanBlanks r
      let (member, r) ← scanKey before r
      let (v, r) ← scanValue fuel r
      let (after, r) := scanBlanks r
      scanMembers fuel (member v after :: done) r
    | _ => none

end

/-- The document in a text, without the blanks around it. -/
def Value.ofText? (s : List Char) : Option Value :=
  let (_, r) := scanBlanks s
  match scanValue (s.length + 1) r with
  | some (v, r) => if r.all isBlank then some v else none
  | none => none

end PullIngest.Json
