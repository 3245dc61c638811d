/-!
The operations that a key-value store offers. All that is done to a store is done by these, each
of them whole or not at all.
-/

namespace Tabular

inductive Primitive
  | keyType
  | get
  | set
  | del
  | incr
  | hget
  | hset
  | hdel
  | hgetall
  | hkeys
  | sadd
  | srem
  | sismember
  | smembers
  | scan
  deriving DecidableEq, Repr

namespace Primitive

def all : List Primitive :=
  [keyType, get, set, del, incr, hget, hset, hdel, hgetall, hkeys, sadd, srem, sismember, smembers,
   scan]

def name : Primitive → String
  | keyType => "key_type"
  | get => "get"
  | set => "set"
  | del => "del"
  | incr => "incr"
  | hget => "hget"
  | hset => "hset"
  | hdel => "hdel"
  | hgetall => "hgetall"
  | hkeys => "hkeys"
  | sadd => "sadd"
  | srem => "srem"
  | sismember => "sismember"
  | smembers => "smembers"
  | scan => "scan"

def ofName? (s : String) : Option Primitive := all.find? fun p => p.name = s

end Primitive

end Tabular
