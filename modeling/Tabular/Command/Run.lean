import Tabular.Command.Basic
import Tabular.Command.Reply
import Tabular.Config
import Tabular.Engine.Rows

/-!
Carrying out commands, in given orders (`Orders`) and in ascending order.
-/

namespace Tabular

/-- The summary of all commands. -/
def helpLines : List String :=
  ["TABLE.NAMESPACE.CREATE <namespace>",
   "TABLE.NAMESPACE.VIEW [<namespace>] - Display all namespace:table pairs, optionally filtered by namespace",
   "TABLE.SCHEMA.VIEW <namespace.table> - Display columns, types, and index status",
   "TABLE.SCHEMA.CREATE <namespace.table> <col:type[:index]> [<col:type[:index]> ...]",
   "  Types: string, integer, float, date (YYYY-MM-DD)",
   "  Index: hash, btree, none (default: none)",
   "  Deprecated: true (=hash), false (=none)",
   "TABLE.SCHEMA.ALTER <namespace.table> ADD COLUMN <col:type[:index]> | ADD INDEX <col> | DROP INDEX <col>",
   "  ADD INDEX builds index for existing data",
   "TABLE.INSERT <namespace.table> <col>=<value> [<col>=<value> ...]",
   "TABLE.SELECT <namespace.table> [WHERE <col><op><value> (AND|OR <col><op><value> ...)]",
   "  Operators: = > < >= <=",
   "  Note: Only indexed columns can use = in WHERE",
   "TABLE.UPDATE <namespace.table> [WHERE <cond> (AND|OR <cond> ...)] SET <col>=<value> [<col>=<value> ...]",
   "TABLE.DELETE <namespace.table> [WHERE <cond> (AND|OR <cond> ...)]",
   "TABLE.DROP <namespace.table> FORCE",
   "  FORCE parameter is required to confirm irreversible deletion",
   "TABLE.HELP"]

/-- A column as replies show it. -/
def Column.reply (c : Column) : Reply :=
  .strings [c.name, c.type.name, if c.indexed then "true" else "false"]

namespace Command

/-- Carries out a command. -/
def runBy (orders : Orders) (config : Config) : Command → StoreM Reply
  | createNamespace ns => do
      Catalog.createNamespace ns
      return .ok
  | listTables ns => do
      let tables ← Catalog.listTables ns config.scanPageSize
      return .strings (tables.map fun t => t.ns ++ ":" ++ t.table)
  | viewSchema table => do
      let schema ← Catalog.describe table
      return .array (schema.columns.map Column.reply)
  | createTable table columns => do
      Catalog.createTable table columns
      return .ok
  | addColumn table column => do
      Catalog.addColumn table column
      return .ok
  | addIndex table column => do
      let _ ← Engine.addIndexBy orders.rows table column
      return .ok
  | dropIndex table column => do
      let _ ← Engine.dropIndex table column config.scanPageSize
      return .ok
  | insert table fields => do
      let id ← Engine.insert table fields
      return .bulk (toString id)
  | select table clause => do
      let rows ← Engine.selectBy orders.rows config.maxRowsScan table clause
      return .array (rows.map fun row => .strings row.flatten)
  | update table clause fields => do
      let count ← Engine.updateBy orders.rows config.maxRowsScan table clause fields
      return .integer count
  | delete table clause => do
      let count ← Engine.deleteBy orders config.maxRowsScan table clause
      return .integer count
  | dropTable table => do
      Catalog.dropTable table config.scanPageSize
      return .ok
  | help => return .strings helpLines

def run : Config → Command → StoreM Reply := runBy .ascending

/-- Carries out the command of a list of words. -/
def runWords (config : Config) (words : List String) : StoreM Reply := do
  run config (← ofExcept (ofWords words))

/-- Carries out the command of a line. -/
def runLineBy (orders : Orders) (config : Config) (line : String) : StoreM Reply := do
  runBy orders config (← ofExcept (parse line))

def runLine : Config → String → StoreM Reply := runLineBy .ascending

end Command

end Tabular
