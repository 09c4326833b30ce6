import PullIngest.Json.Literal
import PullIngest.Json.Value

/-!
# Reading and writing records

A record is an object, whose members may come in any order and among unknown ones, or an array
that lists the fields in their order. `Value.fields?` finds the value of each field; the readers
of single values follow. Written records are objects without blanks.
-/

namespace PullIngest.Json

/-! ### Single values -/

/-- The characters of a string. -/
def Value.chars? : Value → Option (List Char)
  | .string body => unescape? body
  | _ => none

/-- A string. -/
def Value.string? (v : Value) : Option String := v.chars?.map String.ofList

/-- The number that a list of decimal digits stands for. -/
def decimal (ds : List Char) : Nat := ds.foldl (fun n d => 10 * n + (d.toNat - 48)) 0

/-- An integer literal without a sign. -/
def Value.natural? : Value → Option Nat
  | .number literal => if literal.all Char.isDigit then some (decimal literal) else none
  | _ => none

/-- An unsigned integer of 64 bits. -/
def Value.uint64? (v : Value) : Option UInt64 :=
  v.natural?.bind fun n => if n < UInt64.size then some (.ofNat n) else none

/-- A signed integer of 32 bits. A minus sign does not stand before zero. -/
def Value.int32? (v : Value) : Option Int32 :=
  match v with
  | .number ('-' :: digits) =>
    (Value.number digits).natural?.bind fun n =>
      if 0 < n ∧ n ≤ 0x80000000 then some (.ofInt (-n)) else none
  | v => v.natural?.bind fun n => if n < 0x80000000 then some (.ofNat n) else none

/-- A truth value. -/
def Value.bool? : Value → Option Bool
  | .bool b => some b
  | _ => none

/-- The name of a bare variant: a string, or an object whose one member is `null`. -/
def Value.variant? : Value → Option (List Char)
  | .string body => unescape? body
  | .object ⟨_, key, _, _, .null, _⟩ [] => unescape? key
  | _ => none

/-! ### Records -/

/-- The members of an object, with the characters of their keys. -/
def Value.members? : Value → Option (List (List Char × Value))
  | .emptyObject _ => some []
  | .object first rest => (first :: rest).mapM fun m => (unescape? m.key).map (·, m.value)
  | _ => none

/-- The elements of an array. -/
def Value.items? : Value → Option (List Value)
  | .emptyArray _ => some []
  | .array first rest => some ((first :: rest).map Item.value)
  | _ => none

/-- Where a field may be left out. -/
inductive Presence where
  /-- Nowhere. -/
  | required
  /-- In an object. -/
  | optional
  /-- In an object, and at the end of an array. -/
  | defaulted
  deriving DecidableEq, Repr

/-- A field of a record: the names it goes by and where it may be left out. -/
structure Field where
  names : List String
  presence : Presence := .required

/-- Whether a key names the field. -/
def Field.named (f : Field) (key : List Char) : Bool := f.names.any fun n => n.toList = key

/-- The value of a field among members: the field must not be there twice, and must be there
unless it may be left out. -/
def Field.find? (f : Field) (members : List (List Char × Value)) : Option (Option Value) :=
  match members.filter fun m => f.named m.1 with
  | [] => if f.presence = .required then none else some none
  | [m] => some (some m.2)
  | _ => none

/-- The values of fields listed in order. -/
def positional? : List Field → List Value → Option (List (Option Value))
  | [], [] => some []
  | [], _ :: _ => none
  | f :: fs, [] => if f.presence = .defaulted then (positional? fs []).map (none :: ·) else none
  | _ :: fs, v :: vs => (positional? fs vs).map (some v :: ·)

/-- The values of the fields of a record, `none` for a field that is left out. -/
def Value.fields? (fields : List Field) (v : Value) : Option (List (Option Value)) :=
  match v.members?, v.items? with
  | some members, _ => fields.mapM fun f => f.find? members
  | none, some items => positional? fields items
  | none, none => none

/-- Read a value that may be missing or `null`. -/
def readOption {α : Type} (read : Value → Option α) : Option Value → Option (Option α)
  | none => some none
  | some .null => some none
  | some v => (read v).map some

/-- Read a value that is missing when it is the default. -/
def readDefault {α : Type} (read : Value → Option α) (default : α) : Option Value → Option α
  | none => some default
  | some v => read v

/-! ### Writing -/

/-- A string as a document. -/
def Value.ofString (s : String) : Value := .string (escape s.toList)

/-- A number as a document. -/
def Value.ofNat (n : Nat) : Value := .number (Nat.toDigits 10 n)

/-- An integer as a document. -/
def Value.ofInt (i : Int) : Value :=
  if i < 0 then .number ('-' :: Nat.toDigits 10 i.natAbs) else .ofNat i.toNat

/-- A member without blanks. -/
def Member.compact (m : String × Value) : Member Value := ⟨[], escape m.1.toList, [], [], m.2, []⟩

/-- An object without blanks, its members in the order given. -/
def Value.ofMembers : List (String × Value) → Value
  | [] => .emptyObject []
  | m :: ms => .object (Member.compact m) (ms.map Member.compact)

end PullIngest.Json
