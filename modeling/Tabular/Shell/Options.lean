import Tabular.Text.Basic

/-!
The arguments of the shell. They are read from left to right, and the first that is at fault or
asks for help or the version decides. A value may be attached to its option; one that stands alone
must not look like an option.
-/

namespace Tabular.Shell

structure Options where
  maxScanLimit : Option Int := none
  config : Option String := none
  snapshot : Option String := none
  command : Option String := none
  deriving DecidableEq, Repr

/-- What a list of arguments asks for. -/
inductive Invocation
  | run (options : Options)
  | help
  | version
  | refused
  deriving DecidableEq, Repr

/-- The options that take a value. -/
inductive Setting
  | maxScanLimit
  | config
  | snapshot
  | command
  deriving DecidableEq, Repr

def Setting.all : List Setting := [maxScanLimit, config, snapshot, command]

def Setting.name : Setting → String
  | maxScanLimit => "max-scan-limit"
  | config => "config"
  | snapshot => "snapshot"
  | command => "command"

/-- Gives a setting its value. It must have none yet, a scan limit must be an integer, and the name
of a file must not be empty. -/
def Options.give (o : Options) (setting : Setting) (value : String) : Option Options :=
  match setting with
  | .maxScanLimit => do
      if o.maxScanLimit.isSome then none
      return { o with maxScanLimit := some (← Text.int64? value) }
  | .config => if o.config.isSome ∨ value = "" then none else some { o with config := some value }
  | .snapshot =>
      if o.snapshot.isSome ∨ value = "" then none else some { o with snapshot := some value }
  | .command => if o.command.isSome then none else some { o with command := some value }

/-- Whether an argument can be the value of the option before it: a hyphen may stand only alone. -/
def isValue (arg : String) : Bool := arg = "-" || arg.toList.head? ≠ some '-'

/-- What a single argument is. -/
inductive Argument
  /-- Ends the options. -/
  | separator
  /-- A setting, with its value if attached. -/
  | setting (name : Setting) (value : Option String)
  | help
  | version
  | other
  deriving DecidableEq, Repr

/-- The argument that begins with two hyphens and goes on with the given text. -/
def Argument.ofLong (text : String) : Argument :=
  let (name, value) := match Text.cut? '=' text with
    | some (name, value) => (name, some value)
    | none => (text, none)
  match Setting.all.find? fun s => s.name = name with
  | some s => .setting s value
  | none =>
      if value.isSome then .other
      else if name = "help" then .help
      else if name = "version" then .version
      else .other

/-- The argument that begins with one hyphen and goes on with a letter and the given text. -/
def Argument.ofShort (letter : Char) (rest : List Char) : Argument :=
  match letter, rest with
  | 'c', [] => .setting .command none
  | 'c', '=' :: value => .setting .command (some (String.ofList value))
  | 'c', value => .setting .command (some (String.ofList value))
  | 'h', _ => .help
  | 'V', _ => .version
  | _, _ => .other

def Argument.ofText (arg : String) : Argument :=
  match arg.toList with
  | ['-', '-'] => .separator
  | '-' :: '-' :: rest => .ofLong (String.ofList rest)
  | '-' :: letter :: rest => .ofShort letter rest
  | _ => .other

/-- Reads further arguments. Nothing but options is taken, so nothing may follow a separator. -/
def Options.readMore (o : Options) : List String → Invocation
  | [] => .run o
  | arg :: rest =>
      match Argument.ofText arg, rest with
      | .separator, [] => .run o
      | .help, _ => .help
      | .version, _ => .version
      | .setting s (some value), rest =>
          match o.give s value with
          | some o => o.readMore rest
          | none => .refused
      | .setting s none, value :: rest =>
          match (if isValue value then o.give s value else none) with
          | some o => o.readMore rest
          | none => .refused
      | _, _ => .refused

/-- What a list of arguments asks for. -/
def Invocation.ofArguments (args : List String) : Invocation := ({} : Options).readMore args

end Tabular.Shell
