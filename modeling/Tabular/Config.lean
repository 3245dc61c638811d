import Tabular.Error
import Tabular.Text.Basic

/-!
Settings of an engine: how many rows one filter may look at, and how many keys one page of a walk
visits. A scan limit that comes from outside must lie in a fixed range.
-/

namespace Tabular

structure Config where
  /-- The greatest number of rows that one filter may look at. -/
  maxRowsScan : Nat := 100000
  /-- The number of keys that one page of a walk visits. -/
  scanPageSize : Nat := 10
  deriving DecidableEq, Repr

namespace Config

/-- The least and the greatest scan limit that is accepted from outside. -/
def leastScanLimit : Nat := 1000

def greatestScanLimit : Nat := 10000000

/-- Settings with pages so small that a walk over a few keys takes several of them. -/
def forTesting : Config := { scanPageSize := 2 }

def withMaxRowsScan (c : Config) (limit : Nat) : Config := { c with maxRowsScan := limit }

/-- A page visits one key at least. -/
def withScanPageSize (c : Config) (size : Nat) : Config := { c with scanPageSize := max size 1 }

/-- Whether a scan limit is accepted from outside. -/
def acceptsScanLimit (limit : Int) : Bool := leastScanLimit ≤ limit && limit ≤ greatestScanLimit

/-- Takes over a scan limit if it is accepted, and keeps the present one if not. -/
def applyScanLimit (c : Config) (limit : Int) : Config :=
  if acceptsScanLimit limit then c.withMaxRowsScan limit.toNat else c

/-- Takes over what a list of names and values in turn sets, the default for all else. Unknown
names, values that are no integers and a last name without a value are passed over. -/
def applyArguments (c : Config) : List String → Config
  | name :: value :: rest =>
      let c := match Text.int64? value with
        | some limit => if name.toLower = "max_scan_limit" then c.applyScanLimit limit else c
        | none => c
      applyArguments c rest
  | _ => c

def ofArguments (args : List String) : Config := applyArguments {} args

/-- Refuses settings that may not come from outside. -/
def check (c : Config) : Except ConfigError Config :=
  if ¬ acceptsScanLimit c.maxRowsScan then
    .error (.scanLimit leastScanLimit greatestScanLimit c.maxRowsScan)
  else if c.scanPageSize = 0 then .error .pageSize
  else .ok c

end Config

end Tabular
