import Tabular.Error
import Tabular.Glob
import Tabular.OrderedMap
import Tabular.Text.Basic

/-!
A store of texts, hashes and sets by key, and what each primitive does to it. A primitive that
meets a value of another kind fails and leaves the store as it is. Hashes and sets disappear with
their last element. Keys are visited in order of their code points, which is the order of their
UTF-8 encodings.
-/

namespace Tabular

/-- The value of a key. -/
inductive Entry
  | text (value : String)
  | hash (fields : OrderedMap String String)
  | set (members : OrderedSet String)
  deriving DecidableEq

/-- What a key holds. -/
inductive KeyType
  | absent
  | text
  | hash
  | set
  deriving DecidableEq, Repr

abbrev Store := OrderedMap String Entry

/-- A place in the order of keys from which a scan goes on. -/
inductive Cursor
  | start
  | after (key : String)
  | done
  deriving DecidableEq, Repr

/-- The matching keys among those visited, and where to go on. -/
structure Page where
  keys : List String
  cursor : Cursor
  deriving DecidableEq, Repr

namespace Store

def keyType (s : Store) (key : String) : KeyType :=
  match s.get? key with
  | none => .absent
  | some (.text _) => .text
  | some (.hash _) => .hash
  | some (.set _) => .set

/-! ### Texts -/

def get (s : Store) (key : String) : Except StoreError (Option String) :=
  match s.get? key with
  | none => .ok none
  | some (.text v) => .ok (some v)
  | some _ => .error (.wrongType key)

/-- Binds a key to a text, whatever it held. -/
def set (s : Store) (key value : String) : Store := s.insert key (.text value)

/-- Removes a key, whatever it holds, and tells whether there was one. -/
def del (s : Store) (key : String) : Bool × Store := (s.contains key, s.erase key)

/-- Adds one to the 64-bit number that a key holds; no key counts as zero. -/
def incr (s : Store) (key : String) : Except StoreError (Int × Store) := do
  let current ← match ← s.get key with
    | none => pure 0
    | some v => match Text.int64? v with
      | some n => pure n
      | none => throw (.notInteger key)
  if current < Text.maxInt64 then
    return (current + 1, s.set key (toString (current + 1)))
  else throw (.overflow key)

/-! ### Hashes -/

/-- The fields that a key holds with their values; no key has none. -/
def hgetall (s : Store) (key : String) : Except StoreError (OrderedMap String String) :=
  match s.get? key with
  | none => .ok ∅
  | some (.hash h) => .ok h
  | some _ => .error (.wrongType key)

/-- The names of the fields that a key holds, sorted. -/
def hkeys (s : Store) (key : String) : Except StoreError (List String) :=
  return (← s.hgetall key).keys

/-- Binds a key to fields, or to nothing if there are none. -/
def putHash (s : Store) (key : String) (h : OrderedMap String String) : Store :=
  if h.isEmpty then s.erase key else s.insert key (.hash h)

def hget (s : Store) (key field : String) : Except StoreError (Option String) :=
  return (← s.hgetall key).get? field

/-- Sets a field and tells whether it is new. -/
def hset (s : Store) (key field value : String) : Except StoreError (Bool × Store) := do
  let h ← s.hgetall key
  return (!h.contains field, s.putHash key (h.insert field value))

/-- Removes a field and tells whether there was one. -/
def hdel (s : Store) (key field : String) : Except StoreError (Bool × Store) := do
  let h ← s.hgetall key
  return (h.contains field, s.putHash key (h.erase field))

/-! ### Sets -/

/-- The members that a key holds; no key has none. -/
def smembers (s : Store) (key : String) : Except StoreError (OrderedSet String) :=
  match s.get? key with
  | none => .ok ∅
  | some (.set m) => .ok m
  | some _ => .error (.wrongType key)

/-- Binds a key to members, or to nothing if there are none. -/
def putSet (s : Store) (key : String) (m : OrderedSet String) : Store :=
  if m.isEmpty then s.erase key else s.insert key (.set m)

/-- Adds a member and tells whether it is new. -/
def sadd (s : Store) (key member : String) : Except StoreError (Bool × Store) := do
  let m ← s.smembers key
  return (!m.contains member, s.putSet key (OrderedSet.add m member))

/-- Removes a member and tells whether it was one. -/
def srem (s : Store) (key member : String) : Except StoreError (Bool × Store) := do
  let m ← s.smembers key
  return (m.contains member, s.putSet key (m.erase member))

def sismember (s : Store) (key member : String) : Except StoreError Bool :=
  return (← s.smembers key).contains member

/-! ### The key space -/

/-- The keys from a place on. -/
def keysFrom (s : Store) : Cursor → List String
  | .start => s.keys
  | .after last => s.keys.filter (last < ·)
  | .done => []

/-- Visits the next `count` keys, one at least, and gives those that match a pattern. The scan is
done when it runs out of keys before that. -/
def scan (s : Store) (cursor : Cursor) (pattern : String) (count : Nat) : Page :=
  let budget := max count 1
  let visited := (s.keysFrom cursor).take budget
  { keys := visited.filter (Glob.matchesKey pattern)
    cursor := match visited.getLast? with
      | some last => if visited.length = budget then .after last else .done
      | none => .done }

end Store

end Tabular
