import Tabular.Config
import Tabular.Config.Json
import Tabular.Text.Basic

/-!
Configuration files. A file is a JSON object with the settings by name, or an array of them in
order; a setting that is missing has its default. Members of other names are passed over, but a
setting must not be given twice.
-/

namespace Tabular.Config

/-- The names of the settings. -/
def maxRowsScanName : List Char := "max_rows_scan".toList

def scanPageSizeName : List Char := "scan_page_size".toList

/-- The value of the only member of a name, or a default if there is none. -/
def setting? (members : List (List Char × Json)) (name : List Char) (default : Nat) : Option Nat :=
  match members.filter fun m => m.1 = name with
  | [] => some default
  | [m] => m.2.nat64?
  | _ => none

/-- The settings that a value gives. -/
def ofJson? : Json → Option Config
  | .object members => do
      let members ← members.mapM fun (key, value) => key.map (·, value)
      let limit ← setting? members maxRowsScanName ({} : Config).maxRowsScan
      let size ← setting? members scanPageSizeName ({} : Config).scanPageSize
      return ⟨limit, size⟩
  | .array [] => some {}
  | .array [limit] => return { maxRowsScan := ← limit.nat64? }
  | .array [limit, size] => return ⟨← limit.nat64?, ← size.nat64?⟩
  | _ => none

/-- The settings that the text of a file gives. -/
def ofText (text : String) : Except ConfigError Config :=
  match (Json.ofText? text).bind ofJson? with
  | some c => c.check
  | none => .error .malformed

/-- The settings of a file, which must be there and be text in UTF-8. -/
def ofFile (file : Option (List UInt8)) : Except Error Config :=
  match file.bind Text.ofUtf8? with
  | some text => (ofText text).mapError .config
  | none => .error .io

end Tabular.Config
