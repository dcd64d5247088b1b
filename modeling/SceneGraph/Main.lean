import SceneGraph.CommandLine.Outcome

/-!
# The program

Reads the settings file and the file that a command is about, carries the command out, and prints or
writes what comes of it.
-/

namespace SceneGraph

open CommandLine

/-- The reason of a failed access, by the number that the system gives it. -/
def faultOf (e : IO.Error) : StorageFault :=
  let byNumber (code : UInt32) (details : String) : StorageFault :=
    if code = 2 then .missing
    else if code = 20 then .notDirectory
    else if code = 21 then .isDirectory
    else if code = 36 then .nameTooLong
    else .other s!"{details} (os error {code})"
  match e with
  | .noFileOrDirectory .. => .missing
  | .inappropriateType _ code details => byNumber code details
  | .permissionDenied _ code details => byNumber code details
  | .invalidArgument _ code details => byNumber code details
  | e => .other e.toString

/-- What a path leads to. -/
def probe (path : String) : IO StorageEntry := do
  try
    return .file (← IO.FS.readBinFile path)
  catch e =>
    match faultOf e with
    | .isDirectory => return .directory
    | fault => return .fault fault

/-- Storage that knows some paths. -/
def storageOf (workingDirectory : String) (known : List (String × StorageEntry)) : Storage :=
  ⟨workingDirectory, fun path => ((known.find? (·.1 == path)).map (·.2)).getD (.fault .missing)⟩

/-- The paths that a command reads, as far as its settings are known. -/
def pathsOf (c : Command) (storage : Storage) : List String :=
  match Settings.load storage c.config with
  | .ok settings => ({ settings } : Manager).places storage c.file
  | .error _ => []

/-- Storage with everything that a command reads. -/
def gather (c : Command) : IO Storage := do
  let directory := (← IO.currentDir).toString
  let config := (c.config, ← probe c.config)
  let first := storageOf directory [config]
  let found ← (pathsOf c first).mapM fun path => do return (path, ← probe path)
  return storageOf directory (config :: found)

/-- The time on the clock of the host. -/
def clock : IO Timestamp := do
  return ⟨(← IO.monoMsNow).toFloat / 1000⟩

/-- Prints an outcome and gives its code. -/
def conclude (o : Outcome) : IO UInt32 := do
  IO.print o.stdout
  IO.eprint o.stderr
  return o.code.toUInt32

/-- Carries out what a program decided to do. -/
def perform : Effect → IO UInt32
  | .finish outcome => conclude outcome
  | .write path text => do
    let result : Except StorageFault Unit ←
      try
        IO.FS.writeFile path text
        pure (.ok ())
      catch e => pure (.error (faultOf e))
    conclude (.ofWrite path result)

end SceneGraph

open SceneGraph SceneGraph.CommandLine in
/-- Runs the program with its arguments. -/
def main (words : List String) : IO UInt32 := do
  let request := Demand.ofWords words
  let storage ←
    match request with
    | .command c => gather c
    | _ => pure (storageOf "" [])
  perform (request.run storage (← clock))
