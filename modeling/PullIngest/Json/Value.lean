/-!
# JSON documents

A document as it is written: literals, string bodies and blanks are kept, so that `Value.text`
gives back every character. `Value.record?`, `Value.string?`, `Value.natural?` and
`Value.integer?` read a document without looking at its blanks.
-/

namespace PullIngest.Json

/-- An element of an array with the blanks around it. -/
structure Item (α : Type) where
  before : List Char
  value : α
  after : List Char

/-- A member of an object: the body of its key, its value, and the four blanks around them. -/
structure Member (α : Type) where
  before : List Char
  key : List Char
  afterKey : List Char
  beforeValue : List Char
  value : α
  after : List Char

/-- A document. A `number` keeps its literal and a `string` what stands between its quotes; the
blank of an empty array or object stands between its brackets. -/
inductive Value where
  | null
  | bool (b : Bool)
  | number (literal : List Char)
  | string (body : List Char)
  | emptyArray (gap : List Char)
  | array (first : Item Value) (rest : List (Item Value))
  | emptyObject (gap : List Char)
  | object (first : Member Value) (rest : List (Member Value))

instance : Inhabited Value := ⟨.null⟩

/-- A quoted string body. -/
def quoted (body : List Char) : List Char := '"' :: body ++ ['"']

mutual

/-- The document, character by character. -/
def Value.text : Value → List Char
  | .null => ['n', 'u', 'l', 'l']
  | .bool true => ['t', 'r', 'u', 'e']
  | .bool false => ['f', 'a', 'l', 's', 'e']
  | .number literal => literal
  | .string body => quoted body
  | .emptyArray gap => '[' :: (gap ++ [']'])
  | .array ⟨b, v, a⟩ rest => '[' :: (b ++ (v.text ++ (a ++ (itemsText rest ++ [']']))))
  | .emptyObject gap => '\x7b' :: (gap ++ ['\x7d'])
  | .object ⟨b, k, ak, bv, v, a⟩ rest =>
    '\x7b' :: (b ++ (quoted k ++ (ak ++ ':' :: (bv ++ (v.text ++ (a ++ (membersText rest ++ ['\x7d'])))))))

/-- Further elements, each behind a comma. -/
def itemsText : List (Item Value) → List Char
  | [] => []
  | ⟨b, v, a⟩ :: rest => ',' :: (b ++ (v.text ++ (a ++ itemsText rest)))

/-- Further members, each behind a comma. -/
def membersText : List (Member Value) → List Char
  | [] => []
  | ⟨b, k, ak, bv, v, a⟩ :: rest =>
    ',' :: (b ++ (quoted k ++ (ak ++ ':' :: (bv ++ (v.text ++ (a ++ membersText rest))))))

end

end PullIngest.Json
