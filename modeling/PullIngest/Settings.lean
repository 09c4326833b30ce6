import PullIngest.Coordinator
import PullIngest.Text.Utf8
import PullIngest.Toml.Parser

/-!
# Settings

The settings of the program and their file. `Settings.text?` writes a file with one line for each
setting, `Settings.ofText?` reads any TOML document, and `Settings.load` reads the file at a path,
or puts the defaults there when nothing is.
-/

namespace PullIngest

open Toml

/-- The settings. -/
structure Settings where
  /-- The most bytes that are asked for at once. -/
  chunkSize : UInt64 := ({} : Policy).chunkSize
  /-- The seconds without progress after which a session fails. -/
  idleSeconds : UInt64 := 30
  /-- The seconds for which a verdict is repeated. -/
  graceSeconds : UInt64 := 5
  /-- The number of violations that are forgiven. -/
  maxViolations : UInt32 := ({} : Policy).maxViolations
  /-- The directory that files are put into. -/
  outputDir : String := "ingested"
  /-- Whether files without a known format are refused. -/
  onlyKnown : Bool := false
  deriving DecidableEq, Repr

/-- Why settings cannot be had or kept. -/
inductive SettingsError where
  | io (cause : IoError)
  /-- The file is no TOML document, or a setting has a value of the wrong kind. -/
  | malformed
  /-- A number is too large for a TOML document. -/
  | unwritable
  | zeroChunkSize
  | zeroIdleSeconds
  deriving DecidableEq, Repr

/-- The wording of a reason. -/
def SettingsError.message : SettingsError → String
  | .io cause => cause.message
  | .malformed => "malformed settings"
  | .unwritable => "number too large for the settings file"
  | .zeroChunkSize => "chunk_size must be greater than zero"
  | .zeroIdleSeconds => "idle_timeout_secs must be greater than zero"

namespace Settings

/-- The rules that follow for the server. -/
def policy (s : Settings) : Policy where
  chunkSize := s.chunkSize
  idleTimeout := .ofSeconds s.idleSeconds.toNat
  grace := .ofSeconds s.graceSeconds.toNat
  maxViolations := s.maxViolations

/-! ### Names -/

/-- The names of the settings in their file. -/
def chunkSizeKey : Key := "chunk_size".toList
def idleSecondsKey : Key := "idle_timeout_secs".toList
def graceSecondsKey : Key := "done_grace_secs".toList
def maxViolationsKey : Key := "max_violations".toList
def outputDirKey : Key := "output_dir".toList
def onlyKnownKey : Key := "require_known_format".toList

/-! ### Writing -/

/-- The settings by their names. -/
def entries (s : Settings) : List (Key × Scalar) :=
  [(chunkSizeKey, .integer s.chunkSize.toNat), (idleSecondsKey, .integer s.idleSeconds.toNat),
    (graceSecondsKey, .integer s.graceSeconds.toNat),
    (maxViolationsKey, .integer s.maxViolations.toNat), (outputDirKey, .string s.outputDir.toList),
    (onlyKnownKey, .boolean s.onlyKnown)]

/-- The line of a setting. -/
def line? (e : Key × Scalar) : Option (List Char) :=
  e.2.text?.map fun text => e.1 ++ [' ', '=', ' '] ++ text ++ ['\n']

/-- The text of the settings file, unless a number is too large for it. -/
def text? (s : Settings) : Option (List Char) := (s.entries.mapM line?).map List.flatten

/-! ### Reading -/

/-- A number below `limit`. -/
def readNat (t : Entries) (k : Key) (limit default : Nat) : Option Nat :=
  match t.get? k with
  | none => some default
  | some (.scalar (.integer n)) => if 0 ≤ n ∧ n < limit then some n.toNat else none
  | some _ => none

/-- A text. -/
def readString (t : Entries) (k : Key) (default : String) : Option String :=
  match t.get? k with
  | none => some default
  | some (.scalar (.string cs)) => some (String.ofList cs)
  | some _ => none

/-- A truth value. -/
def readBool (t : Entries) (k : Key) (default : Bool) : Option Bool :=
  match t.get? k with
  | none => some default
  | some (.scalar (.boolean b)) => some b
  | some _ => none

/-- The settings in a document. What is not there has its default, and other entries do not
matter. -/
def ofEntries? (t : Entries) : Option Settings := do
  let d : Settings := {}
  let chunkSize ← readNat t chunkSizeKey UInt64.size d.chunkSize.toNat
  let idleSeconds ← readNat t idleSecondsKey UInt64.size d.idleSeconds.toNat
  let graceSeconds ← readNat t graceSecondsKey UInt64.size d.graceSeconds.toNat
  let maxViolations ← readNat t maxViolationsKey UInt32.size d.maxViolations.toNat
  let outputDir ← readString t outputDirKey d.outputDir
  let onlyKnown ← readBool t onlyKnownKey d.onlyKnown
  some { chunkSize := .ofNat chunkSize, idleSeconds := .ofNat idleSeconds,
         graceSeconds := .ofNat graceSeconds, maxViolations := .ofNat maxViolations,
         outputDir, onlyKnown }

/-- The settings in a text. -/
def ofText? (text : List Char) : Option Settings := (Toml.parse? text).bind ofEntries?

/-- Refuse settings with which nothing can be transferred. -/
def check (s : Settings) : Except SettingsError Settings :=
  if s.chunkSize = 0 then .error .zeroChunkSize
  else if s.idleSeconds = 0 then .error .zeroIdleSeconds
  else .ok s

/-! ### The file -/

/-- Write the settings to a file, whose directory is made. -/
def save (s : Settings) (d : Disk) (path : List Char) : Except SettingsError Unit × Disk :=
  let (made, d) := match Path.parent? path with
    | some parent => let (d, r) := d.makeDirectories parent; (r, d)
    | none => (.ok (), d)
  match made, s.text? with
  | .error e, _ => (.error (.io e), d)
  | .ok (), none => (.error .unwritable, d)
  | .ok (), some text =>
    match d.writeFile path (Utf8.encode (String.ofList text)) with
    | .ok d => (.ok (), d)
    | .error e => (.error (.io e), d)

/-- Read the settings in a file that is there. -/
def readFile (d : Disk) (path : List Char) : Except SettingsError Settings :=
  match d.readFile path with
  | .error e => .error (.io e)
  | .ok bytes =>
    match Utf8.decode? bytes with
    | none => .error (.io .notText)
    | some text =>
      match ofText? text.toList with
      | some s => .ok s
      | none => .error .malformed

/-- Read the settings at a path. When nothing is there the defaults are put there. -/
def load (d : Disk) (path : List Char) : Except SettingsError Settings × Disk :=
  if d.pathExists path then ((readFile d path).bind check, d)
  else
    let s : Settings := {}
    match s.save d path with
    | (.ok (), d) => (s.check, d)
    | (.error e, d) => (.error e, d)

/-- Where the settings are: at the path that is asked for, or else below the home directory. -/
def path (asked home : Option String) : List Char :=
  match asked with
  | some p => p.toList
  | none =>
    ["slicepull".toList, "config.toml".toList].foldl Path.join
      (Path.join ((home.getD "/tmp").toList) ".config".toList)

end Settings

end PullIngest
