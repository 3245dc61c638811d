import Tabular.Snapshot.Wire
import Tabular.Store.Basic

/-!
Snapshot files: four letters, the version, the checksum of the payload, and the payload, which
lists the keys of a store with their values. A file may list them in any order and more than once;
the last value of a key or field counts. Bytes after the list are ignored, but the checksum covers
them.
-/

namespace Tabular.Snapshot

/-! ### The checksum

The 32-bit cyclic redundancy check of IEEE 802.3, computed bit by bit: the remainder of a polynomial
over the field with two elements, in reflected order, with all bits inverted before and after. -/

/-- The generator polynomial, lowest power in the highest bit. -/
def generator : BitVec 32 := 0xedb88320#32

/-- Multiplies the remainder by one power of the variable. -/
def crcShift (r : BitVec 32) : BitVec 32 :=
  if r.getLsbD 0 then (r >>> 1) ^^^ generator else r >>> 1

/-- Takes in one byte. -/
def crcByte (r : BitVec 32) (b : UInt8) : BitVec 32 :=
  Nat.repeat crcShift 8 (r ^^^ b.toBitVec.setWidth 32)

/-- The checksum of a sequence of bytes. -/
def checksum (bytes : List UInt8) : BitVec 32 := ~~~ bytes.foldl crcByte (BitVec.allOnes 32)

/-! ### Payloads -/

/-- A value as a payload lists it. -/
inductive Record
  | text (value : String)
  | hash (fields : List (String × String))
  | set (members : List String)
  deriving DecidableEq, Repr

def Record.ofEntry : Entry → Record
  | .text value => .text value
  | .hash fields => .hash fields.toList
  | .set members => .set (OrderedSet.members members)

def Record.toEntry : Record → Entry
  | .text value => .text value
  | .hash fields => .hash (.ofList fields)
  | .set members => .set (.ofMembers members)

/-- A number for the kind of value, then the value. -/
def putRecord : Record → List UInt8
  | .text value => putNat 4 0 ++ putString value
  | .hash fields => putNat 4 1 ++ putList (putPair putString putString) fields
  | .set members => putNat 4 2 ++ putList putString members

def readRecord : Reader Record := fun bytes => do
  let (kind, rest) ← readNat 4 bytes
  match kind with
  | 0 => (readString rest).map fun (value, rest) => (.text value, rest)
  | 1 => (readList (readPair readString readString) rest).map fun (fields, rest) =>
      (.hash fields, rest)
  | 2 => (readList readString rest).map fun (members, rest) => (.set members, rest)
  | _ => none

/-- The bytes that list keys with their values. -/
def putRecords (records : List (String × Record)) : List UInt8 :=
  putList (putPair putString putRecord) records

def readRecords : Reader (List (String × Record)) := readList (readPair readString readRecord)

/-- The contents of a store in order of the keys. -/
def records (s : Store) : List (String × Record) := s.toList.map fun (k, e) => (k, .ofEntry e)

/-- The store of a list of contents. -/
def ofRecords (records : List (String × Record)) : Store :=
  .ofList (records.map fun (k, r) => (k, r.toEntry))

/-! ### Files -/

/-- The letters that open a file. -/
def magic : List UInt8 := Text.utf8 "KVTB"

/-- The version of the format. -/
def version : Nat := 1

/-- The file around a payload. -/
def wrap (payload : List UInt8) : List UInt8 :=
  magic ++ putNat 4 version ++ putNat 4 (checksum payload).toNat ++ payload

/-- The file of a store. -/
def encode (s : Store) : List UInt8 := wrap (putRecords (records s))

/-- The header of a file: its version, the checksum it states, and the payload after it. -/
def readHeader : Reader (Nat × Nat) := fun bytes =>
  if magic.isPrefixOf bytes then readPair (readNat 4) (readNat 4) (bytes.drop magic.length) else none

/-- The store of a file. -/
def decode (file : List UInt8) : Except SnapshotError Store := do
  let some ((found, expected), payload) := readHeader file | throw .header
  if found ≠ version then throw (.version found version)
  let actual := (checksum payload).toNat
  if actual ≠ expected then throw (.checksum expected actual)
  match readRecords payload with
  | some (records, _) => return ofRecords records
  | none => throw .malformed

/-- The store of a file that must be there. -/
def load (file : Option (List UInt8)) : Except Error Store :=
  match file with
  | some bytes => (decode bytes).mapError .snapshot
  | none => .error .io

end Tabular.Snapshot
