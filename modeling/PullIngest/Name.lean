import PullIngest.Error
import PullIngest.Path

/-!
# Declared names

A client declares the name of a file before it sends anything. The name becomes a path below the
output directory, so it must not lead out of it and must name a file.
-/

namespace PullIngest

namespace Name

/-- The first fault of a name, if it has one. -/
def fault? (name : List Char) : Option NameError :=
  if name = [] then some .empty
  else if '\x00' ∈ name then some .nul
  else if name.getLast? = some '/' ∨ name.getLast? = some '\\' then some .noFile
  else if name.head? = some '/' then some .absolute
  else if Path.Component.up ∈ Path.components name then some .traversal
  else if (Path.components name).any (fun c => c matches .normal _) then none
  else some .noFile

/-- Refuse a name that has a fault. -/
def validate (name : String) : Except TransferError Unit :=
  match fault? name.toList with
  | none => .ok ()
  | some cause => .error (.invalidName cause name)

end Name

end PullIngest
