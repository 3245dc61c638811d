import Tabular.Store.Basic

/-!
Programs over a store. A program runs primitives one after another and stops at the first error;
what it has written by then stays written. A session may hold a failure that is armed to strike at
a later call of one primitive. The primitive struck does nothing, and the failure is used up.
-/

namespace Tabular

/-- A failure that strikes after `remaining` more calls of a primitive. -/
structure Fault where
  primitive : Primitive
  remaining : Nat
  deriving DecidableEq, Repr

/-- A store and the failure that is armed, if any. -/
structure Session where
  store : Store
  fault : Option Fault := none
  deriving DecidableEq

/-- A program: from a session to a result or an error, and the session reached. -/
abbrev StoreM := ExceptT Error (StateM Session)

/-- What a call of a primitive makes of the armed failure: `none` if it strikes. -/
def Fault.onCall (fault : Fault) (p : Primitive) : Option Fault :=
  if fault.primitive = p then
    match fault.remaining with
    | 0 => none
    | n + 1 => some ⟨p, n⟩
  else some fault

namespace StoreM

/-- Runs a program and gives what it returns with the session it leaves. -/
def exec {α : Type} (program : StoreM α) (session : Session) : Except Error α × Session :=
  (ExceptT.run program).run session

/-- Calls a primitive. -/
def call {α : Type} (p : Primitive) (act : Store → Except StoreError (α × Store)) : StoreM α :=
  ExceptT.mk fun session =>
    match session.fault.map (·.onCall p) with
    | some none => (.error (.store (.injected p)), { session with fault := none })
    | fault =>
        let fault := fault.join
        match act session.store with
        | .ok (result, store) => (.ok result, ⟨store, fault⟩)
        | .error cause => (.error (.store cause), ⟨session.store, fault⟩)

/-- Calls a primitive that only looks. -/
def look {α : Type} (p : Primitive) (view : Store → Except StoreError α) : StoreM α :=
  call p fun s => (view s).map (·, s)

def keyType (key : String) : StoreM KeyType := look .keyType fun s => .ok (s.keyType key)

def get (key : String) : StoreM (Option String) := look .get (·.get key)

def set (key value : String) : StoreM Unit := call .set fun s => .ok ((), s.set key value)

def del (key : String) : StoreM Bool := call .del fun s => .ok (s.del key)

def incr (key : String) : StoreM Int := call .incr (·.incr key)

def hget (key field : String) : StoreM (Option String) := look .hget (·.hget key field)

def hset (key field value : String) : StoreM Bool := call .hset (·.hset key field value)

def hdel (key field : String) : StoreM Bool := call .hdel (·.hdel key field)

def hgetall (key : String) : StoreM (OrderedMap String String) := look .hgetall (·.hgetall key)

def hkeys (key : String) : StoreM (List String) := look .hkeys (·.hkeys key)

def sadd (key member : String) : StoreM Bool := call .sadd (·.sadd key member)

def srem (key member : String) : StoreM Bool := call .srem (·.srem key member)

def sismember (key member : String) : StoreM Bool := look .sismember (·.sismember key member)

def smembers (key : String) : StoreM (OrderedSet String) := look .smembers (·.smembers key)

def scan (cursor : Cursor) (pattern : String) (count : Nat) : StoreM Page :=
  look .scan fun s => .ok (s.scan cursor pattern count)

end StoreM

end Tabular
