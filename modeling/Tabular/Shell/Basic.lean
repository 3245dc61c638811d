import Tabular.Command.Run
import Tabular.Config.File
import Tabular.Shell.Files
import Tabular.Shell.Options
import Tabular.Snapshot.File

/-!
The shell. It reads lines, of which those that begin with a dot are for the shell itself and all
others are commands, and answers each at once. With a snapshot file the store is loaded from it at
the start and written to it at the end. A run is a function of the arguments, the files and the
input; nothing in it depends on time.
-/

namespace Tabular.Shell

/-- The store, and the store as it was last saved. -/
structure State where
  store : Store
  saved : Option Store := none
  deriving DecidableEq

def banner : String := "kvtable v1.1.0\nType '.help' for help, '.exit' to quit\n\n"

def prompt : String := "kvtable> "

def versionText : String := "kvtable-cli 1.1.0\n"

def usage : String :=
  "Interactive shell for kvtable\n\nUsage: kvtable-cli [OPTIONS]\n\nOptions:\n" ++
  "      --max-scan-limit <N>  Maximum rows a single filter pass may examine (1000..=10000000)\n" ++
  "      --config <FILE>       JSON configuration file\n" ++
  "      --snapshot <FILE>     Snapshot file: loaded at start if present, written on .save and exit\n" ++
  "  -c, --command <COMMAND>   Execute a single command and exit\n" ++
  "  -h, --help                Print help\n" ++
  "  -V, --version             Print version\n"

/-- The answer to `.help`. -/
def helpText : String :=
  "\nShell commands:\n" ++
  "  .help     Show this help\n" ++
  "  .save     Write the snapshot file (requires --snapshot)\n" ++
  "  .exit     Quit (the snapshot is also written on exit)\n" ++
  "\nTable commands (the TABLE. prefix is optional; use double quotes for values with spaces):\n\n" ++
  String.join (helpLines.map fun line => "  " ++ line ++ "\n") ++ "\n"

/-- The answer to a command, and the store it leaves. -/
def answer (config : Config) (line : String) (store : Store) : String × Store :=
  match (Command.runLine config line).exec { store } with
  | (.ok reply, session) => (reply.render ++ "\n", session.store)
  | (.error e, session) => ("(error) ERR " ++ e.message ++ "\n", session.store)

/-- What is printed for a line and the state after it; `none` if the line ends the session. Blanks
around a line do not count. -/
def feed (config : Config) (line : String) (state : State) : Option (String × State) :=
  let input := Text.trim line
  if input = "" then some ("", state)
  else if input.toList.head? = some '.' then
    if input = ".exit" ∨ input = ".quit" then none
    else if input = ".help" then some (helpText, state)
    else if input = ".save" then some ("", { state with saved := some state.store })
    else some ("Type '.help' for available commands\n", state)
  else
    let (text, store) := answer config input state.store
    some (text, { state with store })

/-- What is printed for each line up to one that ends the session, and the state at the end. -/
def converse (config : Config) : List String → State → List String × State
  | [], state => ([], state)
  | line :: rest, state =>
      match feed config line state with
      | none => ([], state)
      | some (text, state) =>
          let (more, last) := converse config rest state
          (text :: more, last)

/-- All that a conversation prints. There is a prompt before each line is read, and so one more
than there are lines answered. -/
def transcript (texts : List String) : String :=
  banner ++ String.join (texts.map (prompt ++ ·)) ++ prompt

/-- Cuts a text after each line feed. -/
def lineList : List Char → List (List Char)
  | [] => []
  | c :: rest =>
      if c = '\n' then [c] :: lineList rest
      else match lineList rest with
        | [] => [[c]]
        | line :: lines => (c :: line) :: lines

def lines (text : String) : List String := (lineList text.toList).map String.ofList

/-- What a run prints, its exit code, and what it leaves in the snapshot file; `none` if it does
not write to it. -/
structure Outcome where
  output : String
  code : Nat
  written : Option (List UInt8) := none
  deriving DecidableEq, Repr

/-- The settings of a run, from a file and the arguments. -/
def loadConfig (o : Options) (files : Files) : Except Error Config := do
  let config ← match o.config with
    | some name => Config.ofFile (files.find name).content?
    | none => pure {}
  return match o.maxScanLimit with
    | some limit => config.applyScanLimit limit
    | none => config

/-- The store at the start of a run; a snapshot file that is not there yet stands for none. -/
def loadStore (o : Options) (files : Files) : Except Error Store :=
  match o.snapshot.map files.find with
  | none | some .nothing => .ok ∅
  | some place => Snapshot.load place.content?

/-- The conversation of a run: one command, or all lines of the input. -/
def talk (o : Options) (config : Config) (input : String) (store : Store) : String × State :=
  match o.command with
  | some command =>
      let (text, store) := answer config command store
      (text, { store })
  | none =>
      let (texts, state) := converse config (lines input) { store }
      (transcript texts, state)

/-- A run with given options over files and an input. It fails at the end if the
store cannot be saved under the name of the snapshot file. -/
def runWith (o : Options) (files : Files) (input : String) : Outcome :=
  match (return (← loadConfig o files, ← loadStore o files) : Except Error (Config × Store)) with
  | .error _ => { output := "", code := 1 }
  | .ok (config, store) =>
      let (output, state) := talk o config input store
      match o.snapshot with
      | none => { output, code := 0 }
      | some name =>
          if files.accepts name then
            { output, code := 0, written := some (Snapshot.encode state.store) }
          else { output, code := 1 }

/-- A run with given arguments. -/
def run (args : List String) (files : Files) (input : String) : Outcome :=
  match Invocation.ofArguments args with
  | .run o => runWith o files input
  | .help => { output := usage, code := 0 }
  | .version => { output := versionText, code := 0 }
  | .refused => { output := "", code := 2 }

end Tabular.Shell
