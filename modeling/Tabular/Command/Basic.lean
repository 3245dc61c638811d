import Tabular.Command.Words
import Tabular.Query.Where
import Tabular.Table.Column

/-!
Table commands and their words. The names of commands and the keywords within them may be written
in any case, and names may begin with `TABLE.`. A command is read as a whole before any of it is
carried out.
-/

namespace Tabular

inductive Command
  | createNamespace (ns : String)
  /-- Lists all tables, or those of one namespace. -/
  | listTables (ns : Option String)
  | viewSchema (table : TableName)
  | createTable (table : TableName) (columns : List Column)
  | addColumn (table : TableName) (column : Column)
  | addIndex (table : TableName) (column : String)
  | dropIndex (table : TableName) (column : String)
  | insert (table : TableName) (fields : List (String × String))
  | select (table : TableName) (clause : Option WhereClause)
  | update (table : TableName) (clause : Option WhereClause) (fields : List (String × String))
  | delete (table : TableName) (clause : Option WhereClause)
  | dropTable (table : TableName)
  | help
  deriving DecidableEq, Repr

/-- The first word of a command. -/
inductive Verb
  | namespaceCreate
  | namespaceView
  | schemaView
  | schemaCreate
  | schemaAlter
  | insert
  | select
  | update
  | delete
  | drop
  | help
  deriving DecidableEq, Repr

namespace Verb

def all : List Verb :=
  [namespaceCreate, namespaceView, schemaView, schemaCreate, schemaAlter, insert, select, update,
   delete, drop, help]

def name : Verb → String
  | namespaceCreate => "NAMESPACE.CREATE"
  | namespaceView => "NAMESPACE.VIEW"
  | schemaView => "SCHEMA.VIEW"
  | schemaCreate => "SCHEMA.CREATE"
  | schemaAlter => "SCHEMA.ALTER"
  | insert => "INSERT"
  | select => "SELECT"
  | update => "UPDATE"
  | delete => "DELETE"
  | drop => "DROP"
  | help => "HELP"

/-- The verb that a word names, with or without `TABLE.` in front. -/
def ofWord? (word : String) : Option Verb :=
  all.find? fun v => word.toUpper = v.name ∨ word.toUpper = "TABLE." ++ v.name

end Verb

namespace Command

/-- The table that a command is about. -/
def table? : Command → Option TableName
  | createNamespace _ | listTables _ | help => none
  | viewSchema t | createTable t _ | addColumn t _ | addIndex t _ | dropIndex t _ | insert t _
  | select t _ | update t _ _ | delete t _ | dropTable t => some t

/-- Whether a word is a keyword, in any case. -/
def isKeyword (keyword word : String) : Bool := word.toUpper = keyword

/-- An error in the form of a command. -/
def refuse {α : Type} (cause : SyntaxError) : Except Error α := .error (.badSyntax cause)

/-- The result of reading a part of a command. -/
def reading {α : Type} (result : Except SyntaxError α) : Except Error α :=
  result.mapError .badSyntax

/-- Reads `WHERE` and a clause, or nothing. -/
def readWhere : List String → Except Error (Option WhereClause)
  | [] => .ok none
  | word :: rest =>
      if isKeyword "WHERE" word then (WhereClause.parse rest).map some
      else refuse (.expectedWhere word)

def readAssignments (words : List String) : Except Error (List (String × String)) :=
  reading (words.mapM parseAssignment)

/-- Reads what follows the table in a change of its schema. -/
def readAlter (table : TableName) (action target operand : String) : Except Error Command :=
  if isKeyword "ADD" action ∧ isKeyword "COLUMN" target then
    (reading (Column.parse operand)).map (.addColumn table)
  else if isKeyword "ADD" action ∧ isKeyword "INDEX" target then .ok (.addIndex table operand)
  else if isKeyword "DROP" action ∧ isKeyword "INDEX" target then .ok (.dropIndex table operand)
  else refuse .alterUsage

/-- Reads what follows the table in an update: the words before the first SET select, those after
it assign. -/
def readUpdate (table : TableName) (words : List String) : Except Error Command := do
  let clauseWords := words.takeWhile fun w => !isKeyword "SET" w
  match words.dropWhile fun w => !isKeyword "SET" w with
  | [] => refuse .missingSet
  | _ :: assignments => do
      let clause ← readWhere clauseWords
      if assignments.isEmpty then refuse .emptySet
      return .update table clause (← readAssignments assignments)

/-- Reads the words after the verb. -/
def ofArguments : Verb → List String → Except Error Command
  | .namespaceCreate, [ns] => .ok (.createNamespace ns)
  | .namespaceView, [] => .ok (.listTables none)
  | .namespaceView, [ns] => .ok (.listTables (some ns))
  | .schemaView, [table] => return .viewSchema (← TableName.parse table)
  | .schemaCreate, table :: spec :: specs => do
      let table ← TableName.parse table
      return .createTable table (← reading ((spec :: specs).mapM Column.parse))
  | .schemaAlter, [table, action, target, operand] => do
      readAlter (← TableName.parse table) action target operand
  | .schemaAlter, _ => refuse .alterUsage
  | .insert, table :: field :: fields => do
      let table ← TableName.parse table
      return .insert table (← readAssignments (field :: fields))
  | .select, table :: rest => return .select (← TableName.parse table) (← readWhere rest)
  | .update, table :: rest => do readUpdate (← TableName.parse table) rest
  | .delete, table :: rest => return .delete (← TableName.parse table) (← readWhere rest)
  | .drop, [_] => refuse .dropWithoutForce
  | .drop, [table, force] =>
      if isKeyword "FORCE" force then return .dropTable (← TableName.parse table)
      else refuse .dropWithoutForce
  | .help, _ => .ok .help
  | verb, _ => refuse (.arity verb.name)

/-- The command of a list of words. -/
def ofWords : List String → Except Error Command
  | [] => refuse .emptyCommand
  | word :: args =>
      match Verb.ofWord? word with
      | some verb => ofArguments verb args
      | none => refuse (.unknownCommand word)

/-- The command of a line. -/
def parse (line : String) : Except Error Command := do ofWords (← reading (Words.split line))

end Command

end Tabular
