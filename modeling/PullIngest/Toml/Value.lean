import PullIngest.Table
import PullIngest.Toml.Scalar

/-!
# TOML tables

What a document holds, and how each of its lines adds to it. A line may only add: `Node.assign`
gives a value to a key that has none, and the headers open tables that are not yet defined.
-/

namespace PullIngest.Toml

/-- A key. -/
abbrev Key := List Char

/-- Where a table comes from, which decides what may be added to it. -/
inductive Origin where
  /-- It has a header of its own. -/
  | header
  /-- Only tables below it have headers. -/
  | implied
  /-- It is named in a dotted key. -/
  | dotted
  deriving DecidableEq, Repr

/-- What a key stands for. -/
inductive Node where
  | scalar (v : Scalar)
  | array (items : List Node)
  /-- A table that is written as one value, and complete. -/
  | inline (entries : Table Key Node)
  | table (origin : Origin) (entries : Table Key Node)
  /-- One or more tables under the same key. -/
  | tables (before : List (Table Key Node)) (last : Table Key Node)

/-- The entries of a table. -/
abbrev Entries := Table Key Node

/-- A dotted key: the keys of the tables above, and the last key. -/
structure KeyPath where
  above : List Key
  key : Key
  deriving DecidableEq, Repr

namespace Entries

/-- Give a key that has no value a value. -/
def assignKey (k : Key) (v : Node) (t : Entries) : Option Entries :=
  if t.has k then none else some (t.set k v)

/-- Give a dotted key a value. Tables on the way are made. One that has a header of its own may not
be entered, and the last one must come from a dotted key too. -/
def assign (t : Entries) (above : List Key) (k : Key) (v : Node) : Option Entries :=
  match above with
  | [] => t.assignKey k v
  | a :: rest =>
    match t.get? a with
    | none => (assign ∅ rest k v).map fun u => t.set a (.table .dotted u)
    | some (.table origin u) =>
      if origin = .header ∨ (rest = [] ∧ origin ≠ .dotted) then none
      else (assign u rest k v).map fun u => t.set a (.table origin u)
    | some (.tables before last) =>
      if rest = [] then none
      else (assign last rest k v).map fun u => t.set a (.tables before u)
    | some _ => none

/-- Change the table that the keys of a header lead to. Tables on the way are made, and of several
tables under one key the last one is meant. -/
def below (t : Entries) (f : Entries → Option Entries) : (path : List Key) → Option Entries
  | [] => f t
  | a :: rest =>
    match t.get? a with
    | none => (below ∅ f rest).map fun u => t.set a (.table .implied u)
    | some (.table origin u) => (below u f rest).map fun u => t.set a (.table origin u)
    | some (.tables before last) => (below last f rest).map fun u => t.set a (.tables before u)
    | some _ => none

/-- Open the table of a header. It may be implied already, but not defined. -/
def openTable (k : Key) (t : Entries) : Option Entries :=
  match t.get? k with
  | none => some (t.set k (.table .header ∅))
  | some (.table .implied u) => some (t.set k (.table .header u))
  | some _ => none

/-- Open one more of several tables under one key. -/
def openElement (k : Key) (t : Entries) : Option Entries :=
  match t.get? k with
  | none => some (t.set k (.tables [] ∅))
  | some (.tables before last) => some (t.set k (.tables (before ++ [last]) ∅))
  | some _ => none

end Entries

/-! ### Documents -/

/-- A line of a document. -/
inductive Statement where
  /-- The header of a table. -/
  | table (path : KeyPath)
  /-- The header of one of several tables. -/
  | element (path : KeyPath)
  | assign (path : KeyPath) (value : Node)

/-- A document up to some line. -/
structure Document where
  root : Entries := ∅
  /-- The table that the latest header opened. -/
  current : List Key := []

/-- Add a line to a document. -/
def Document.add? (d : Document) : Statement → Option Document
  | .table ⟨above, k⟩ => (d.root.below (Entries.openTable k) above).map (⟨·, above ++ [k]⟩)
  | .element ⟨above, k⟩ => (d.root.below (Entries.openElement k) above).map (⟨·, above ++ [k]⟩)
  | .assign ⟨above, k⟩ v =>
    (d.root.below (fun t => Entries.assign t above k v) d.current).map (⟨·, d.current⟩)

end PullIngest.Toml
