import Tabular.Shell.Basic

/-!
The shell as a program: reading files and lines, and printing.
-/

namespace Tabular.Shell

/-- What a name leads to now. -/
def find (name : String) : IO Place := do
  try
    return .file (← IO.FS.readBinFile name).data.toList
  catch
    | .noFileOrDirectory .. => return .nothing
    | _ => return .unreadable

/-- Saves a file. It is written under another name first, so that a failure leaves the file of that
name as it was. -/
def saveFile (name : String) (bytes : List UInt8) : IO Unit := do
  unless canSave name do throw (.userError s!"cannot save a file as {name}")
  unless directoryOf name = "" do IO.FS.createDirAll (directoryOf name)
  IO.FS.writeBinFile (temporaryName name) ⟨bytes.toArray⟩
  IO.FS.rename (temporaryName name) name

/-- Saves the store as a snapshot file, and tells whether that went well. -/
def saveStore (name : String) (store : Store) : IO Bool := do
  try
    saveFile name (Snapshot.encode store)
    return true
  catch e =>
    IO.eprintln s!"Error: {e}"
    return false

/-- Reads and answers lines until the input ends or a line ends the session. -/
partial def loop (o : Options) (config : Config) (state : State) : IO State := do
  let out ← IO.getStdout
  out.putStr prompt
  out.flush
  let line ← (← IO.getStdin).getLine
  if line.isEmpty then return state
  match feed config line state with
  | none => return state
  | some (text, next) => do
      out.putStr text
      if let (some name, some store) := (o.snapshot, next.saved) then
        let _ ← saveStore name store
      loop o config { next with saved := none }

/-- A run with given options. Gives the exit code. -/
def start (o : Options) : IO UInt32 := do
  let config ← o.config.mapM find
  let snapshot ← o.snapshot.mapM find
  let only (place : Option Place) : Files := { find := fun _ => place.getD .nothing, accepts := canSave }
  let loaded : Except Error (Config × Store) :=
    return (← loadConfig o (only config), ← loadStore o (only snapshot))
  match loaded with
  | .error e =>
      IO.eprintln s!"Error: {e.message}"
      return 1
  | .ok (config, store) =>
      let state ← match o.command with
        | some command => do
            let (text, store) := answer config command store
            IO.print text
            pure { store }
        | none => do
            IO.print banner
            loop o config { store }
      match o.snapshot with
      | none => return 0
      | some name => return if ← saveStore name state.store then 0 else 1

end Tabular.Shell

/-- Runs the shell with the arguments of the program. -/
def main (args : List String) : IO UInt32 := do
  match Tabular.Shell.Invocation.ofArguments args with
  | .run o => Tabular.Shell.start o
  | .help =>
      IO.print Tabular.Shell.usage
      return 0
  | .version =>
      IO.print Tabular.Shell.versionText
      return 0
  | .refused =>
      IO.eprint "error: bad arguments\n\nFor more information, try '--help'.\n"
      return 2
