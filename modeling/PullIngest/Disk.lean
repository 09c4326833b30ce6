import PullIngest.Error
import PullIngest.Path
import PullIngest.Table

/-!
# Disks

A tree of directories and files as a value. A file is known by a number, so that one that is open
can still be read and written after its name is gone. Paths are looked up segment by segment, from
the current directory or from the root, and every refusal is one that a file system gives.
-/

namespace PullIngest

/-- A place in the tree: the names from the root down. -/
abbrev Place := List (List Char)

/-- What a name stands for. -/
inductive Entry where
  | directory
  | file (number : Nat)
  deriving DecidableEq, Repr

/-- A tree of files. -/
structure Disk where
  entries : Table Place Entry := ∅
  contents : Table Nat (List UInt8) := ∅
  nextFile : Nat := 0
  current : Place := []

namespace Disk

/-- The longest name of a file, in bytes. -/
def maxName : Nat := 255

/-- The length that no path reaches, in bytes. -/
def maxPath : Nat := 4096

/-- The number of bytes of a text. -/
def byteLength (cs : List Char) : Nat := cs.foldl (fun n c => n + c.utf8Size) 0

/-- What is at a place. The root is always a directory. -/
def at? (d : Disk) (p : Place) : Option Entry :=
  if p = [] then some .directory else d.entries.get? p

/-- A disk with a current directory and nothing else. -/
def withCurrent (p : Place) : Disk where
  entries := ⟨(List.range p.length).map fun n => (p.take (n + 1), .directory)⟩
  current := p

/-! ### Looking up paths -/

/-- The directory reached from `p` by a list of segments. -/
def walk (d : Disk) (p : Place) : List (List Char) → Except IoError Place
  | [] => .ok p
  | s :: r =>
    if s = Path.dot then d.walk p r
    else if s = Path.dotDot then d.walk p.dropLast r
    else if maxName < byteLength s then .error .nameTooLong
    else
      match d.at? (p ++ [s]) with
      | none => .error .notFound
      | some (.file _) => .error .notDirectory
      | some .directory => d.walk (p ++ [s]) r

/-- The last segment of a path. -/
inductive Last where
  /-- The path is the root, or ends in dots. -/
  | directory (p : Place)
  | name (parent : Place) (segment : List Char)
  deriving DecidableEq, Repr

/-- The place of a name. -/
def Last.place : Last → Place
  | .directory p => p
  | .name parent s => parent ++ [s]

/-- Look up everything but the last segment. -/
def last (d : Disk) (path : List Char) : Except IoError Last :=
  if '\x00' ∈ path then .error .nulInPath
  else if path = [] then .error .notFound
  else if maxPath ≤ byteLength path then .error .nameTooLong
  else do
    let origin := if path.head? = some '/' then [] else d.current
    match ((Path.segments path).filter (· ≠ [])).reverse with
    | [] => .ok (.directory origin)
    | s :: before => do
      let parent ← d.walk origin before.reverse
      if s = Path.dot then .ok (.directory parent)
      else if s = Path.dotDot then .ok (.directory parent.dropLast)
      else .ok (.name parent s)

/-- Whether a path ends in a slash and so can only name a directory. -/
def namesDirectory (path : List Char) : Bool := path.getLast? = some '/'

/-- What the last segment of a path stands for, if it stands for anything. -/
def entry? (d : Disk) : Last → Except IoError (Option Entry)
  | .directory _ => .ok (some .directory)
  | .name parent s =>
    if maxName < byteLength s then .error .nameTooLong
    else .ok (d.at? (parent ++ [s]))

/-- What a path stands for. -/
def find (d : Disk) (path : List Char) : Except IoError Entry := do
  match ← d.entry? (← d.last path) with
  | none => .error .notFound
  | some (.file n) => if namesDirectory path then .error .notDirectory else .ok (.file n)
  | some .directory => .ok .directory

/-- Whether a path stands for a directory. -/
def isDirectory (d : Disk) (path : List Char) : Bool :=
  match d.find path with
  | .ok .directory => true
  | _ => false

/-- Whether a path stands for anything. -/
def pathExists (d : Disk) (path : List Char) : Bool :=
  match d.find path with
  | .ok _ => true
  | .error _ => false

/-! ### Directories -/

/-- Make one directory. -/
def makeDirectory (d : Disk) (path : List Char) : Except IoError Disk := do
  let last ← d.last path
  match ← d.entry? last with
  | some _ => .error .alreadyExists
  | none => .ok { d with entries := d.entries.set last.place .directory }

/-- Make the directory with the given steps, last step first, and those above it as needed. A
directory that is already there is good enough. What was made before a refusal stays. -/
def makeDirectoriesAt (d : Disk) : List Path.Component → Disk × Except IoError Unit
  | [] => (d, .ok ())
  | c :: above =>
    let path := Path.ofComponents (c :: above).reverse
    let settle := fun (d : Disk) (e : IoError) => (d, if d.isDirectory path then .ok () else .error e)
    match d.makeDirectory path with
    | .ok d => (d, .ok ())
    | .error .notFound =>
      match d.makeDirectoriesAt above with
      | (d, .error e) => (d, .error e)
      | (d, .ok ()) =>
        match d.makeDirectory path with
        | .ok d => (d, .ok ())
        | .error e => settle d e
    | .error e => settle d e

/-- Make a directory and those above it as needed. -/
def makeDirectories (d : Disk) (path : List Char) : Disk × Except IoError Unit :=
  d.makeDirectoriesAt (Path.components path).reverse

/-! ### Files -/

/-- The bytes of a file, which need not have a name any more. -/
def read (d : Disk) (file : Nat) : List UInt8 := (d.contents.get? file).getD []

/-- Replace the bytes of a file. -/
def replace (d : Disk) (file : Nat) (bytes : List UInt8) : Disk :=
  { d with contents := d.contents.set file bytes }

/-- The first `n` bytes, filled up with zeros. -/
def firstBytes (n : Nat) (bytes : List UInt8) : List UInt8 :=
  bytes.take n ++ List.replicate (n - bytes.length) 0

/-- Write bytes into a file from an offset on. -/
def writeAt (d : Disk) (file offset : Nat) (data : List UInt8) : Disk :=
  if data = [] then d
  else
    let old := d.read file
    d.replace file (firstBytes offset old ++ data ++ old.drop (offset + data.length))

/-- Cut a file off, or fill it up with zeros. -/
def resize (d : Disk) (file length : Nat) : Disk := d.replace file (firstBytes length (d.read file))

/-- Put a new file at a place. -/
def addFile (d : Disk) (p : Place) (bytes : List UInt8) : Disk :=
  { d with entries := d.entries.set p (.file d.nextFile)
           contents := d.contents.set d.nextFile bytes
           nextFile := d.nextFile + 1 }

/-- Make an empty file where nothing is; the file's number comes with the disk. -/
def createFile (d : Disk) (path : List Char) : Except IoError (Disk × Nat) := do
  let last ← d.last path
  if namesDirectory path then .error .isDirectory
  else
    match ← d.entry? last with
    | some _ => .error .alreadyExists
    | none => .ok (d.addFile last.place [], d.nextFile)

/-- Make a file with the given bytes, or replace the bytes of the file that is there. -/
def writeFile (d : Disk) (path : List Char) (bytes : List UInt8) : Except IoError Disk := do
  let last ← d.last path
  if namesDirectory path then .error .isDirectory
  else
    match ← d.entry? last with
    | some .directory => .error .isDirectory
    | some (.file n) => .ok (d.replace n bytes)
    | none => .ok (d.addFile last.place bytes)

/-- The bytes of the file that a path stands for. -/
def readFile (d : Disk) (path : List Char) : Except IoError (List UInt8) := do
  match ← d.find path with
  | .directory => .error .isDirectory
  | .file n => .ok (d.read n)

/-- Give a file another name. A file that has the new name already loses it; a directory keeps
it. Directories are not moved. -/
def rename (d : Disk) (source target : List Char) : Except IoError Disk := do
  let oldLast ← d.last source
  let newLast ← d.last target
  match oldLast, newLast with
  | .name .., .name .. =>
    match ← d.entry? oldLast with
    | none => .error .notFound
    | some .directory => .error .isDirectory
    | some (.file n) =>
      let there ← d.entry? newLast
      if namesDirectory source ∨ namesDirectory target then .error .notDirectory
      else if there = some .directory then .error .isDirectory
      else .ok { d with entries := (d.entries.erase oldLast.place).set newLast.place (.file n) }
  | _, _ => .error .busy

/-- Take a file's name away. -/
def removeFile (d : Disk) (path : List Char) : Except IoError Disk := do
  let last ← d.last path
  match ← d.entry? last with
  | none => .error .notFound
  | some .directory => .error .isDirectory
  | some (.file _) =>
    if namesDirectory path then .error .notDirectory
    else .ok { d with entries := d.entries.erase last.place }

/-! ### Listing -/

/-- The path of a place below the current directory; directories end in a slash. -/
def relativePath? (d : Disk) (p : Place) (e : Entry) : Option (List Char) :=
  if d.current.isPrefixOf p && d.current.length < p.length then
    let path := ['/'].intercalate (p.drop d.current.length)
    some (if e = .directory then path ++ ['/'] else path)
  else none

/-- The entries below the current directory in the order of their paths, each with its bytes if it
is a file. -/
def listing (d : Disk) : List (List Char × Option (List UInt8)) :=
  let found := d.entries.pairs.filterMap fun (p, e) =>
    (d.relativePath? p e).map fun path =>
      (path, match e with | .directory => none | .file n => some (d.read n))
  found.mergeSort fun a b => !List.lex b.1 a.1 fun x y => decide (x < y)

end Disk

end PullIngest
