import Tabular.Store.Primitive
import Tabular.Table.Name
import Tabular.Value.ColumnType

/-!
Everything that can go wrong, by cause, and the one place where causes are put into words.
-/

namespace Tabular

/-- How a command fails to be one. -/
inductive SyntaxError
  | unbalancedQuotes
  | emptyCommand
  | unknownCommand (name : String)
  /-- The command of this name takes another number of arguments. -/
  | arity (command : String)
  | alterUsage
  | dropWithoutForce
  | expectedWhere (word : String)
  | missingSet
  | emptySet
  | emptyWhere
  | expectedConnective (word : String)
  | danglingConnective
  | assignment
  | columnSpec (spec : String)
  | columnType (name : String)
  | indexKind
  | tableWithoutColumns
  | rowWithoutFields
  deriving DecidableEq, Repr

/-- How a primitive of the store fails. -/
inductive StoreError
  /-- The key holds a value of another kind. -/
  | wrongType (key : String)
  | notInteger (key : String)
  | overflow (key : String)
  /-- The primitive was made to fail. -/
  | injected (primitive : Primitive)
  deriving DecidableEq, Repr

/-- Why a configuration is refused. -/
inductive ConfigError
  | malformed
  /-- The scan limit is outside the closed range between `least` and `greatest`. -/
  | scanLimit (least greatest limit : Nat)
  | pageSize
  deriving DecidableEq, Repr

/-- Why a snapshot is refused. -/
inductive SnapshotError
  | header
  | version (found supported : Nat)
  | checksum (expected actual : Nat)
  | malformed
  deriving DecidableEq, Repr

inductive Error
  | namespaceNotFound (ns : String)
  | tableNotFound (table : TableName)
  | columnNotFound (column : String) (table : TableName)
  | namespaceExists (ns : String)
  | tableExists (table : TableName)
  | columnExists (column : String) (table : TableName)
  | invalidName (part : NamePart) (name : String) (fault : NameFault)
  | malformedName (text : String)
  | malformedCondition (text : String)
  | typeMismatch (column : String) (expected : ColumnType) (value : String)
  /-- A query begins with an equality on a column without an index. -/
  | nonIndexedEquality (column : String)
  | scanLimitExceeded (limit : Nat)
  | badSyntax (cause : SyntaxError)
  | store (cause : StoreError)
  | negativeCounter (table : TableName)
  | config (cause : ConfigError)
  | snapshot (cause : SnapshotError)
  /-- A file cannot be read as text. -/
  | io
  deriving DecidableEq, Repr

def NameFault.message : NameFault → String
  | tooLong => s!"it exceeds the limit of {maxNameLength} characters"
  | brace => "it must not contain '\x7b' or '\x7d'"
  | emptyOrDotted => "it must be non-empty and must not contain '.'"

def SyntaxError.message : SyntaxError → String
  | unbalancedQuotes => "unbalanced quotes"
  | emptyCommand => "empty command"
  | unknownCommand name => s!"unknown command '{name}'"
  | arity command => s!"wrong number of arguments for '{command}'"
  | alterUsage => "ADD COLUMN col:type[:index] | ADD INDEX col | DROP INDEX col"
  | dropWithoutForce =>
      "This operation is irreversible, use FORCE parameter to remove the table"
  | expectedWhere word => s!"expected WHERE, got '{word}'"
  | missingSet => "missing SET"
  | emptySet => "SET expects <col>=<value>"
  | emptyWhere => "WHERE requires at least one condition"
  | expectedConnective word => s!"expected AND/OR between conditions, got '{word}'"
  | danglingConnective => "dangling operator"
  | assignment => "each field must be <col>=<value>"
  | columnSpec spec => s!"format: <col:type[:index]>, got '{spec}'"
  | columnType name =>
      s!"unknown column type '{name}', expected string, integer, float or date"
  | indexKind => "index must be 'hash', 'btree', 'none' (or deprecated 'true'/'false')"
  | tableWithoutColumns => "a table needs at least one column"
  | rowWithoutFields => "INSERT requires at least one <col>=<value>"

def StoreError.message : StoreError → String
  | wrongType key => s!"WRONGTYPE operation against a key holding the wrong kind of value: {key}"
  | notInteger key => s!"value is not an integer or out of range: {key}"
  | overflow key => s!"increment would overflow: {key}"
  | injected primitive => s!"injected {primitive.name} failure"

def ConfigError.message : ConfigError → String
  | malformed => "malformed configuration"
  | scanLimit least greatest limit =>
      s!"max_rows_scan must be between {least} and {greatest}, got {limit}"
  | pageSize => "scan_page_size must be positive"

/-- Eight hexadecimal digits. -/
def hexWord (n : Nat) : String :=
  let digits := Nat.toDigits 16 n
  String.ofList (List.replicate (8 - digits.length) '0' ++ digits)

def SnapshotError.message : SnapshotError → String
  | header => "not a kvtable snapshot"
  | version found supported => s!"unsupported snapshot version {found} (expected {supported})"
  | checksum expected actual =>
      s!"checksum mismatch: expected {hexWord expected}, got {hexWord actual}"
  | malformed => "malformed snapshot"

/-- The error in words, as replies and logs show it. -/
def Error.message : Error → String
  | namespaceNotFound ns => s!"namespace does not exist: {ns}"
  | tableNotFound table => s!"table schema does not exist: {table.full}"
  | columnNotFound column table => s!"column does not exist: {column} in {table.full}"
  | namespaceExists ns => s!"namespace {ns} already exists"
  | tableExists table => s!"table schema {table.full} already exists"
  | columnExists column table => s!"column {column} in {table.full} already exists"
  | invalidName part name fault =>
      s!"incorrect {part.label} name '{name}': {fault.message}"
  | malformedName text => s!"table name must be namespace.table: {text}"
  | malformedCondition text => s!"condition must be <col><op><value>: {text}"
  | typeMismatch column expected value =>
      s!"invalid value for column '{column}' of type {expected.name}: {value}"
  | nonIndexedEquality column => s!"search cannot be done on non-indexed column: {column}"
  | scanLimitExceeded limit =>
      s!"query scan limit exceeded (max {limit} rows). Use indexed columns or add more specific conditions."
  | badSyntax cause => s!"syntax error: {cause.message}"
  | store cause => s!"store error: {cause.message}"
  | negativeCounter table => s!"store error: row id counter of {table.full} is negative"
  | config cause => s!"configuration error: {cause.message}"
  | snapshot cause => s!"snapshot error: {cause.message}"
  | io => "IO error"

/-- The table of a qualified name. -/
def TableName.parse (s : String) : Except Error TableName :=
  match TableName.ofText? s with
  | some t => .ok t
  | none => .error (.malformedName s)

/-- Succeeds on names whose parts are short enough and have no braces. -/
def TableName.check (t : TableName) : Except Error Unit :=
  match t.fault? with
  | some (part, name, fault) => .error (.invalidName part name fault)
  | none => .ok ()

/-- Succeeds on values of the column's type. -/
def ColumnType.check (t : ColumnType) (column value : String) : Except Error Unit :=
  if t.accepts value then .ok () else .error (.typeMismatch column t value)

end Tabular
