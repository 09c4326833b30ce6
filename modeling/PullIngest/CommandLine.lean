import PullIngest.Network
import PullIngest.Settings

/-!
# The command line

`Request.ofArguments` reads the arguments: one file, the options `--config` and `--output`, and the
flags for help and the version. `Request.run` takes the file into the output directory, with a
server and an uploader on one bus, and tells how the program ends.
-/

namespace PullIngest

/-- The options that take a value. -/
inductive CommandOption where
  | config
  | output
  deriving DecidableEq, Repr

/-- What the arguments ask for. -/
structure Request where
  /-- The file to take in. -/
  file : String
  /-- Where the settings are, if not at their usual place. -/
  config : Option String
  /-- The directory that replaces the one in the settings. -/
  output : Option String
  deriving DecidableEq, Repr

/-- Why there is no request. -/
inductive Refusal where
  /-- The arguments ask for help or the version. -/
  | information
  /-- The arguments make no sense. -/
  | usage
  deriving DecidableEq, Repr

/-- Arguments up to some point. -/
structure Arguments where
  file : Option String := none
  config : Option String := none
  output : Option String := none
  /-- The option whose value comes next. -/
  awaiting : Option CommandOption := none
  /-- Whether `--` has been read, after which no argument is an option. -/
  literal : Bool := false

namespace Arguments

/-- Take the file. -/
def setFile (a : Arguments) (value : String) : Except Refusal Arguments :=
  if a.file.isSome ∨ value = "" then .error .usage else .ok { a with file := some value }

/-- Take the value of an option. No option comes twice, and only the output may be empty. -/
def setOption (a : Arguments) (o : CommandOption) (value : String) : Except Refusal Arguments :=
  let a := { a with awaiting := none }
  match o with
  | .config =>
    if a.config.isSome ∨ value = "" then .error .usage else .ok { a with config := some value }
  | .output =>
    if a.output.isSome then .error .usage else .ok { a with output := some value }

/-- Take an option, with its value if it has an equals sign. -/
def onOption (a : Arguments) (name : List Char) (value : Option (List Char)) :
    Except Refusal Arguments :=
  let take := fun o =>
    match value with
    | some v => a.setOption o (String.ofList v)
    | none => .ok { a with awaiting := some o }
  if name = "config".toList then take .config
  else if name = "output".toList then take .output
  else if (name = "help".toList ∨ name = "version".toList) ∧ value = none then .error .information
  else .error .usage

/-- Split at the first equals sign. -/
def splitValue (cs : List Char) : List Char × Option (List Char) :=
  match cs.span (· ≠ '=') with
  | (name, _ :: value) => (name, some value)
  | (name, []) => (name, none)

/-- Take one argument. The value of an option may not look like an option, but a dash alone does
not. -/
def step (a : Arguments) (arg : String) : Except Refusal Arguments :=
  if a.literal then a.setFile arg
  else
    match arg.toList, a.awaiting with
    | '-' :: _ :: _, some _ => .error .usage
    | _, some o => a.setOption o arg
    | ['-', '-'], none => .ok { a with literal := true }
    | '-' :: '-' :: r, none => a.onOption (splitValue r).1 (splitValue r).2
    | '-' :: c :: _, none => .error (if c = 'h' ∨ c = 'V' then .information else .usage)
    | _, none => a.setFile arg

end Arguments

/-- Read the arguments. The settings of the environment count when `--config` is not there. -/
def Request.ofArguments (environment : Option String) (args : List String) :
    Except Refusal Request := do
  let a ← args.foldlM Arguments.step {}
  let config := a.config <|> environment
  match a.file with
  | some file =>
    if a.awaiting.isSome ∨ config = some "" then .error .usage
    else .ok { file, config, output := a.output }
  | none => .error .usage

/-! ### Running -/

/-- What the program knows about its surroundings. -/
structure Environment where
  home : Option String := none
  /-- Where the settings are, if that is set. -/
  config : Option String := none
  deriving DecidableEq, Repr

/-- Why a file is not taken in. -/
inductive Failure where
  | settings (cause : SettingsError)
  /-- The output directory cannot be made. -/
  | output (cause : IoError)
  | upload (cause : UploadError)
  /-- The server is against the file. -/
  | rejected (file session : String)
  deriving DecidableEq, Repr

/-- The wording of a reason. -/
def Failure.message : Failure → String
  | .settings cause => cause.message
  | .output cause => cause.message
  | .upload cause => cause.message
  | .rejected file session => "server rejected " ++ file ++ " (session " ++ session ++ ")"

/-- Take a file into the output directory. -/
def transfer (s : Settings) (d : Disk) (file : String) : Except Failure UploadOutcome × Disk :=
  match d.makeDirectories s.outputDir.toList with
  | (d, .error e) => (.error (.output e), d)
  | (d, .ok ()) =>
    match Source.open? d file.toList with
    | .error e => (.error (.upload (.transfer (.io e))), d)
    | .ok source =>
      let server : Server :=
        { policy := s.policy, destination := .directory s.outputDir.toList s.onlyKnown }
      let uploader : Uploader :=
        { correlation := "upload", source
          name := String.ofList ((Path.fileName? file.toList).getD []) }
      let network := ((Network.start server d).runUploads [uploader]).shutdown
      let result := match network.uploads.head?.bind fun t => t.uploader.result? with
        | some (.ok outcome) =>
          if outcome.success then .ok outcome else .error (.rejected file outcome.session)
        | some (.error e) => .error (.upload e)
        | none => .error (.upload .timeout)
      (result, network.storage.disk)

/-- Find the settings and take the file in. -/
def Request.run (r : Request) (home : Option String) (d : Disk) :
    Except Failure UploadOutcome × Disk :=
  match Settings.load d (Settings.path r.config home) with
  | (.error e, d) => (.error (.settings e), d)
  | (.ok s, d) => transfer { s with outputDir := r.output.getD s.outputDir } d r.file

/-- How the program ends. -/
inductive Ending where
  /-- The file is taken in. -/
  | done (outcome : UploadOutcome)
  /-- Only information was asked for. -/
  | information
  | usage
  | failed (why : Failure)
  deriving DecidableEq, Repr

/-- The exit code. -/
def Ending.code : Ending → Nat
  | .done _ => 0
  | .information => 0
  | .failed _ => 1
  | .usage => 2

/-- Run the program. -/
def runCommand (args : List String) (environment : Environment) (d : Disk) : Ending × Disk :=
  match Request.ofArguments environment.config args with
  | .error .information => (.information, d)
  | .error .usage => (.usage, d)
  | .ok request =>
    match request.run environment.home d with
    | (.ok outcome, d) => (.done outcome, d)
    | (.error e, d) => (.failed e, d)

end PullIngest
