/-!
# Paths

A path is a text of segments between slashes. `components` reads off where it leads: empty
segments and dots in the middle lead nowhere. Two paths are the same place for a claim when
their components agree.
-/

namespace PullIngest

namespace Path

/-- A step of a path. -/
inductive Component where
  /-- The slash a path begins with. -/
  | root
  /-- The dot a path begins with. -/
  | current
  /-- Two dots. -/
  | up
  | normal (name : List Char)
  deriving DecidableEq, Repr

/-- The parts of a text between its slashes; there is always one more part than slashes. -/
def segments : List Char → List (List Char)
  | [] => [[]]
  | c :: r =>
    if c = '/' then [] :: segments r
    else
      match segments r with
      | [] => [[c]]
      | s :: ss => (c :: s) :: ss

/-- The segment `.`. -/
def dot : List Char := ['.']

/-- The segment `..`. -/
def dotDot : List Char := ['.', '.']

/-- The step that a segment stands for, if it is not the first. -/
def step? (segment : List Char) : Option Component :=
  if segment = [] ∨ segment = dot then none
  else if segment = dotDot then some .up
  else some (.normal segment)

/-- What the beginning of a path adds to its steps. -/
def start (path : List Char) : List Component :=
  match segments path with
  | s :: _ => if path.head? = some '/' then [.root] else if s = dot then [.current] else []
  | [] => []

/-- The steps of a path. -/
def components (path : List Char) : List Component :=
  start path ++ (segments path).filterMap step?

/-- The path of a name below a base. -/
def join (base name : List Char) : List Char :=
  if name.head? = some '/' then name
  else if base = [] ∨ base.getLast? = some '/' then base ++ name
  else base ++ '/' :: name

/-- The text of one step. -/
def Component.text : Component → List Char
  | .root => []
  | .current => dot
  | .up => dotDot
  | .normal name => name

/-- A path with the given steps. -/
def ofComponents : List Component → List Char
  | [.root] => ['/']
  | cs => ['/'].intercalate (cs.map Component.text)

/-- The path without its last step. The root and the empty path have no parent. -/
def parent? (path : List Char) : Option (List Char) :=
  match (components path).reverse with
  | [] => none
  | .root :: _ => none
  | _ :: before => some (ofComponents before.reverse)

/-- The last step of a path, if it is an ordinary one. -/
def fileName? (path : List Char) : Option (List Char) :=
  match (components path).getLast? with
  | some (.normal name) => some name
  | _ => none

end Path

end PullIngest
