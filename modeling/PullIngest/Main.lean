import PullIngest.CommandLine

/-!
# The program

The program runs on a picture of the disk that holds what it may touch: `look` takes the picture,
`runCommand` works on it, and `store` makes the disk like it.
-/

namespace PullIngest.Program

/-- The beginnings of a path, each one step longer than the one before. -/
def beginnings (path : List Char) : List (List Char) :=
  let steps := Path.components path
  (List.range steps.length).map fun n => Path.ofComponents (steps.take (n + 1))

/-- Add what is on the way to a path, and at its end, to a picture of the disk. -/
def look (d : Disk) (path : List Char) : IO Disk :=
  (beginnings path).foldlM (fun d p => do
    try
      let bytes ← IO.FS.readBinFile (String.ofList p)
      return (d.writeFile p bytes.toList).toOption.getD d
    catch
      | .inappropriateType .. => return (d.makeDirectory p).toOption.getD d
      | _ => return d) d

/-- The full path of a place. -/
def fullPath (p : Place) : String := String.ofList ('/' :: ['/'].intercalate p)

/-- The content of an entry. -/
def content (d : Disk) : Entry → Option (List UInt8)
  | .directory => none
  | .file n => some (d.read n)

/-- Make the disk like a picture that was changed. -/
def store (old new : Disk) : IO Unit := do
  for (p, _) in old.entries.pairs do
    unless new.entries.has p do IO.FS.removeFile (fullPath p)
  for (p, e) in new.entries.pairs do
    unless (old.entries.get? p).map (content old) = some (content new e) do
      match content new e with
      | none => IO.FS.createDir (fullPath p)
      | some bytes => IO.FS.writeBinFile (fullPath p) (ByteArray.mk bytes.toArray)

/-- The files that a request may touch, once its settings are known. -/
def touched (r : Request) (s : Settings) : List (List Char) :=
  let output := (r.output.getD s.outputDir).toList
  [r.file.toList, output, Path.join output ((Path.fileName? r.file.toList).getD [])]

/-- A picture of everything that the arguments lead to. -/
def picture (args : List String) (environment : Environment) : IO Disk := do
  let here := (toString (← IO.currentDir)).toList
  let d := Disk.withCurrent ((Path.segments here).filter (· ≠ []))
  match Request.ofArguments environment.config args with
  | .error _ => return d
  | .ok r =>
    let settingsPath := Settings.path r.config environment.home
    let d ← look d settingsPath
    match (Settings.load d settingsPath).1 with
    | .error _ => return d
    | .ok s => (touched r s).foldlM look d

/-- How the program is called. -/
def usage : String := "Usage: slicepull [--config <CONFIG>] [--output <OUTPUT>] <FILE>"

end PullIngest.Program

open PullIngest PullIngest.Program

/-- Run the program on the real disk. -/
def main (args : List String) : IO UInt32 := do
  let environment : Environment :=
    { home := ← IO.getEnv "HOME", config := ← IO.getEnv "SLICEPULL_CONFIG" }
  let old ← picture args environment
  let (ending, new) := runCommand args environment old
  store old new
  match ending with
  | .done _ => pure ()
  | .information => IO.println usage
  | .usage => IO.eprintln usage
  | .failed why => IO.eprintln ("Error: " ++ why.message)
  return UInt32.ofNat ending.code
