import Tabular.Proofs.Interruption

/-!
The primitives of the store, call by call, on stores that only they have written. A call that looks
leaves the store as it is; one that writes puts something under the key that it names, but never a
hash without fields or a set without members (`Primitive.Call.puts_of_act`). A call fails for a
value of another kind, and one that counts also for a text that is no number and for the greatest
number (`Primitive.Call.act_eq_error_iff`); the store then stays as it is.
-/

namespace Tabular

namespace Store

variable {s s' : Store} {key : String} {cause : StoreError}

/-! ### Writing one key -/

/-- No key holds a hash without fields or a set without members. -/
def Full (s : Store) : Prop := ∀ key e, s.get? key = some e → ¬ e.Vacant

/-- The second store is the first with something else under one key, or nothing. -/
def Puts (s : Store) (key : String) (s' : Store) : Prop :=
  ∃ o : Option Entry, (∀ e, o = some e → ¬ e.Vacant) ∧
    ∀ x, s'.get? x = if x = key then o else s.get? x

theorem puts_set (value : String) : s.Puts key (s.set key value) := by
  refine ⟨some (.text value), ?_, OrderedMap.get?_insert s key _⟩
  rintro e ⟨⟩
  exact id

theorem puts_del : s.Puts key (s.del key).2 := by
  refine ⟨none, ?_, OrderedMap.get?_erase s key⟩
  rintro e ⟨⟩

theorem puts_putHash (h : OrderedMap String String) : s.Puts key (s.putHash key h) :=
  ⟨_, fun _ => Entry.not_vacant_ofHash, get?_putHash h⟩

theorem puts_putSet (m : OrderedSet String) : s.Puts key (s.putSet key m) :=
  ⟨_, fun _ => Entry.not_vacant_ofSet, get?_putSet m⟩

theorem Puts.get?_ne (h : s.Puts key s') {x : String} (hx : x ≠ key) : s'.get? x = s.get? x := by
  obtain ⟨o, -, hget⟩ := h
  rw [hget, if_neg hx]

theorem Puts.full (h : s.Puts key s') (hs : s.Full) : s'.Full := by
  obtain ⟨o, ho, hget⟩ := h
  intro x e he
  rw [hget] at he
  split at he
  · exact ho e he
  · exact hs x e he

/-! ### Values of another kind -/

theorem keyType_eq_absent_iff : s.keyType key = .absent ↔ s.get? key = none := by
  unfold keyType
  cases s.get? key with
  | none => simp
  | some e => cases e <;> simp

/-- A key holds a value, and not of this kind. -/
def Clashes (s : Store) (key : String) (kind : KeyType) : Prop :=
  s.keyType key ≠ .absent ∧ s.keyType key ≠ kind

theorem get_eq_error_iff :
    s.get key = .error cause ↔ cause = .wrongType key ∧ s.Clashes key .text := by
  unfold get Clashes keyType
  cases s.get? key with
  | none => simp
  | some e => cases e <;> simp [eq_comm]

theorem hgetall_eq_error_iff :
    s.hgetall key = .error cause ↔ cause = .wrongType key ∧ s.Clashes key .hash := by
  unfold hgetall Clashes keyType
  cases s.get? key with
  | none => simp
  | some e => cases e <;> simp [eq_comm]

theorem smembers_eq_error_iff :
    s.smembers key = .error cause ↔ cause = .wrongType key ∧ s.Clashes key .set := by
  unfold smembers Clashes keyType
  cases s.get? key with
  | none => simp
  | some e => cases e <;> simp [eq_comm]

/-! ### Counting -/

/-- The 64-bit number that a key holds; no key counts as zero. -/
def number? (s : Store) (key : String) : Option Int :=
  match s.get? key with
  | none => some 0
  | some (.text v) => Text.int64? v
  | some _ => none

theorem number?_of_get {v : String} (h : s.get? key = some (.text v)) :
    s.number? key = Text.int64? v := by
  rw [number?, h]

theorem number?_bounds {n : Int} (h : s.number? key = some n) :
    Text.minInt64 ≤ n ∧ n ≤ Text.maxInt64 := by
  unfold number? at h
  split at h
  · cases h
    decide
  · exact Text.int64?_bounds h
  · cases h

theorem number?_cases (s : Store) (key : String) : s.Clashes key .text ∨
    (∃ v, s.get? key = some (.text v) ∧ Text.int64? v = none) ∨ ∃ n, s.number? key = some n := by
  cases hs : s.get? key with
  | none => exact Or.inr (Or.inr ⟨0, by rw [number?, hs]⟩)
  | some e =>
      cases e with
      | hash fields => exact Or.inl (by simp [Clashes, keyType, hs])
      | set members => exact Or.inl (by simp [Clashes, keyType, hs])
      | text v =>
          cases hv : Text.int64? v with
          | none => exact Or.inr (Or.inl ⟨v, rfl, hv⟩)
          | some n => exact Or.inr (Or.inr ⟨n, by rw [number?_of_get hs, hv]⟩)

/-- A number that is not the greatest is counted up, in decimal. -/
theorem incr_of_number? {n : Int} (h : s.number? key = some n) :
    s.incr key = if n < Text.maxInt64 then .ok (n + 1, s.set key (toString (n + 1)))
      else .error (.overflow key) := by
  unfold number? at h
  split at h
  · next hs =>
      cases h
      have hget : s.get key = .ok none := by rw [get, hs]
      rw [incr, hget]
      rfl
  · next v hs =>
      have hget : s.get key = .ok (some v) := by rw [get, hs]
      exact incr_of_get hget h
  · cases h

theorem incr_of_int64?_eq_none {v : String} (hs : s.get? key = some (.text v))
    (hv : Text.int64? v = none) : s.incr key = .error (.notInteger key) := by
  have hget : s.get key = .ok (some v) := by rw [get, hs]
  rw [incr, hget]
  simp only [bind, Except.bind, hv]
  rfl

theorem incr_of_clashes (h : s.Clashes key .text) : s.incr key = .error (.wrongType key) := by
  rw [incr, get_eq_error_iff.mpr ⟨rfl, h⟩]
  rfl

/-- The number that a key holds after it has been counted up. -/
theorem number?_set {n : Int} (h : s.number? key = some n) (hn : n < Text.maxInt64) :
    (s.set key (toString (n + 1))).number? key = some (n + 1) := by
  have hmin := (number?_bounds h).1
  have hget : (s.set key (toString (n + 1))).get? key = some (.text (toString (n + 1))) := by
    rw [set, OrderedMap.get?_insert, if_pos rfl]
  rw [number?_of_get hget]
  exact Text.int64?_toString_int (by omega) hn

end Store

/-! ### Calls -/

namespace Primitive

/-- A primitive with its arguments. -/
inductive Call
  | keyType (key : String)
  | get (key : String)
  | set (key value : String)
  | del (key : String)
  | incr (key : String)
  | hget (key field : String)
  | hset (key field value : String)
  | hdel (key field : String)
  | hgetall (key : String)
  | hkeys (key : String)
  | sadd (key member : String)
  | srem (key member : String)
  | sismember (key member : String)
  | smembers (key : String)
  | scan (cursor : Cursor) (pattern : String) (count : Nat)
  deriving DecidableEq, Repr

namespace Call

def primitive : Call → Primitive
  | keyType _ => .keyType
  | get _ => .get
  | set _ _ => .set
  | del _ => .del
  | incr _ => .incr
  | hget _ _ => .hget
  | hset _ _ _ => .hset
  | hdel _ _ => .hdel
  | hgetall _ => .hgetall
  | hkeys _ => .hkeys
  | sadd _ _ => .sadd
  | srem _ _ => .srem
  | sismember _ _ => .sismember
  | smembers _ => .smembers
  | scan _ _ _ => .scan

/-- The key that a call names. A scan names none. -/
def key? : Call → Option String
  | keyType key | get key | set key _ | del key | incr key | hget key _ | hset key _ _ | hdel key _
  | hgetall key | hkeys key | sadd key _ | srem key _ | sismember key _ | smembers key => some key
  | scan _ _ _ => none

/-- The kind of value that a call is for, if not any. -/
def kind? : Call → Option KeyType
  | get _ | incr _ => some .text
  | hget _ _ | hset _ _ _ | hdel _ _ | hgetall _ | hkeys _ => some .hash
  | sadd _ _ | srem _ _ | sismember _ _ | smembers _ => some .set
  | keyType _ | set _ _ | del _ | scan _ _ _ => none

/-- What a call answers. -/
def Answer : Call → Type
  | keyType _ => KeyType
  | get _ | hget _ _ => Option String
  | set _ _ => Unit
  | incr _ => Int
  | del _ | hset _ _ _ | hdel _ _ | sadd _ _ | srem _ _ | sismember _ _ => Bool
  | hgetall _ => OrderedMap String String
  | hkeys _ => List String
  | smembers _ => OrderedSet String
  | scan _ _ _ => Page

/-- A call as a program. -/
def run : (c : Call) → StoreM c.Answer
  | keyType key => StoreM.keyType key
  | get key => StoreM.get key
  | set key value => StoreM.set key value
  | del key => StoreM.del key
  | incr key => StoreM.incr key
  | hget key field => StoreM.hget key field
  | hset key field value => StoreM.hset key field value
  | hdel key field => StoreM.hdel key field
  | hgetall key => StoreM.hgetall key
  | hkeys key => StoreM.hkeys key
  | sadd key member => StoreM.sadd key member
  | srem key member => StoreM.srem key member
  | sismember key member => StoreM.sismember key member
  | smembers key => StoreM.smembers key
  | scan cursor pattern count => StoreM.scan cursor pattern count

/-- What a call makes of a store. -/
def act : (c : Call) → Store → Except StoreError (c.Answer × Store)
  | keyType key, s => .ok (s.keyType key, s)
  | get key, s => (s.get key).map (·, s)
  | set key value, s => .ok ((), s.set key value)
  | del key, s => .ok (s.del key)
  | incr key, s => s.incr key
  | hget key field, s => (s.hget key field).map (·, s)
  | hset key field value, s => s.hset key field value
  | hdel key field, s => s.hdel key field
  | hgetall key, s => (s.hgetall key).map (·, s)
  | hkeys key, s => (s.hkeys key).map (·, s)
  | sadd key member, s => s.sadd key member
  | srem key member, s => s.srem key member
  | sismember key member, s => (s.sismember key member).map (·, s)
  | smembers key, s => (s.smembers key).map (·, s)
  | scan cursor pattern count, s => .ok (s.scan cursor pattern count, s)

theorem run_eq (c : Call) : c.run = StoreM.call c.primitive c.act := by
  cases c <;> rfl

variable {c : Call} {s s' : Store} {cause : StoreError}

theorem exec_run_ok {a : c.Answer} (h : c.act s = .ok (a, s')) :
    c.run.exec ⟨s, none⟩ = (.ok a, ⟨s', none⟩) := by
  rw [run_eq, StoreM.exec_call, h]

theorem exec_run_error (h : c.act s = .error cause) :
    c.run.exec ⟨s, none⟩ = (.error (.store cause), ⟨s, none⟩) := by
  rw [run_eq, StoreM.exec_call, h]

/-! ### What a call that succeeds has done -/

/-- A call that looks leaves the store as it is. -/
theorem eq_of_act {a : c.Answer} (hc : c.primitive.looks = true) (h : c.act s = .ok (a, s')) :
    s' = s := by
  have hview {α : Type} {r : Except StoreError α} {a : α} (h : r.map (·, s) = .ok (a, s')) :
      s' = s := by
    cases r with
    | error cause => cases h
    | ok b => exact (Prod.mk.inj (Except.ok.inj h)).2.symm
  cases c with
  | set | del | incr | hset | hdel | sadd | srem => cases hc
  | keyType | scan => exact (Prod.mk.inj (Except.ok.inj h)).2.symm
  | get | hget | hgetall | hkeys | sismember | smembers => exact hview h

/-- A call that writes puts something under the key that it names. -/
theorem puts_of_act {a : c.Answer} (hc : c.primitive.looks = false) (h : c.act s = .ok (a, s')) :
    ∃ key, c.key? = some key ∧ s.Puts key s' := by
  cases c with
  | keyType | get | hget | hgetall | hkeys | sismember | smembers | scan => cases hc
  | set key value =>
      obtain rfl := (Prod.mk.inj (Except.ok.inj h)).2
      exact ⟨key, rfl, Store.puts_set value⟩
  | del key =>
      obtain rfl := (Prod.mk.inj (Except.ok.inj h)).2
      exact ⟨key, rfl, Store.puts_del⟩
  | incr key =>
      rw [Store.incr_eq_ok h]
      exact ⟨key, rfl, Store.puts_set _⟩
  | hset key field value | hdel key field =>
      obtain ⟨_, -, h⟩ := bind_eq_ok.mp h
      obtain rfl := (Prod.mk.inj (Except.ok.inj h)).2
      exact ⟨key, rfl, Store.puts_putHash _⟩
  | sadd key member | srem key member =>
      obtain ⟨_, -, h⟩ := bind_eq_ok.mp h
      obtain rfl := (Prod.mk.inj (Except.ok.inj h)).2
      exact ⟨key, rfl, Store.puts_putSet _⟩

/-! ### Why a call fails -/

/-- What a call on a store fails for. -/
inductive Fails (s : Store) : Call → StoreError → Prop
  /-- The key holds a value of another kind than the call is for. -/
  | wrongType {c : Call} {key : String} {kind : KeyType} (hkey : c.key? = some key)
      (hkind : c.kind? = some kind) (h : s.Clashes key kind) : Fails s c (.wrongType key)
  /-- The text to be counted up denotes no number of 64 bits. -/
  | notInteger {key v : String} (hget : s.get? key = some (.text v)) (hv : Text.int64? v = none) :
      Fails s (.incr key) (.notInteger key)
  /-- The number to be counted up is the greatest of 64 bits. -/
  | overflow {key : String} (h : s.number? key = some Text.maxInt64) :
      Fails s (.incr key) (.overflow key)

theorem not_fails (hkind : c.kind? = none) : ¬ Fails s c cause := by
  rintro (⟨-, hkind', -⟩ | _ | _)
  · rw [hkind] at hkind'
    cases hkind'
  · cases hkind
  · cases hkind

/-- A call that does not count can only meet a value of another kind. -/
theorem fails_iff {key : String} {kind : KeyType} (hkey : c.key? = some key)
    (hkind : c.kind? = some kind) (hc : c.primitive ≠ .incr) :
    Fails s c cause ↔ cause = .wrongType key ∧ s.Clashes key kind := by
  constructor
  · rintro (⟨hkey', hkind', h⟩ | _ | _)
    · obtain rfl := Option.some.inj (hkey.symm.trans hkey')
      obtain rfl := Option.some.inj (hkind.symm.trans hkind')
      exact ⟨rfl, h⟩
    · exact (hc rfl).elim
    · exact (hc rfl).elim
  · rintro ⟨rfl, h⟩
    exact .wrongType hkey hkind h

theorem incr_eq_error_iff {key : String} :
    s.incr key = .error cause ↔ Fails s (.incr key) cause := by
  constructor
  · intro h
    rcases s.number?_cases key with hclash | ⟨v, hs, hv⟩ | ⟨n, hn⟩
    · rw [Store.incr_of_clashes hclash] at h
      cases h
      exact .wrongType rfl rfl hclash
    · rw [Store.incr_of_int64?_eq_none hs hv] at h
      cases h
      exact .notInteger hs hv
    · have hmax := (Store.number?_bounds hn).2
      rw [Store.incr_of_number? hn] at h
      split at h
      · cases h
      · cases h
        obtain rfl : n = Text.maxInt64 := by omega
        exact .overflow hn
  · rintro (⟨hkey, hkind, hclash⟩ | ⟨hs, hv⟩ | hn)
    · cases hkey
      cases hkind
      exact Store.incr_of_clashes hclash
    · exact Store.incr_of_int64?_eq_none hs hv
    · rw [Store.incr_of_number? hn, if_neg (Int.lt_irrefl _)]

/-- A call fails for one of these causes, and only then. -/
theorem act_eq_error_iff : c.act s = .error cause ↔ Fails s c cause := by
  have hmap {α : Type} {r : Except StoreError α} :
      r.map (·, s) = .error cause ↔ r = .error cause := by
    cases r <;> simp [Except.map]
  cases c with
  | keyType | set | del | scan => exact iff_of_false (fun h => nomatch h) (not_fails rfl)
  | incr key => exact incr_eq_error_iff
  | get key =>
      rw [fails_iff rfl rfl (by rintro ⟨⟩), ← Store.get_eq_error_iff]
      exact hmap
  | hgetall key =>
      rw [fails_iff rfl rfl (by rintro ⟨⟩), ← Store.hgetall_eq_error_iff]
      exact hmap
  | hget key field | hkeys key =>
      rw [fails_iff rfl rfl (by rintro ⟨⟩), ← Store.hgetall_eq_error_iff]
      exact hmap.trans bind_pure_eq_error
  | hset key field value | hdel key field =>
      rw [fails_iff rfl rfl (by rintro ⟨⟩), ← Store.hgetall_eq_error_iff]
      exact bind_pure_eq_error
  | smembers key =>
      rw [fails_iff rfl rfl (by rintro ⟨⟩), ← Store.smembers_eq_error_iff]
      exact hmap
  | sismember key member =>
      rw [fails_iff rfl rfl (by rintro ⟨⟩), ← Store.smembers_eq_error_iff]
      exact hmap.trans bind_pure_eq_error
  | sadd key member | srem key member =>
      rw [fails_iff rfl rfl (by rintro ⟨⟩), ← Store.smembers_eq_error_iff]
      exact bind_pure_eq_error

/-- A call that fails has done nothing, and one that succeeds nothing to any key but its own. -/
theorem exec_run (c : Call) (s : Store) : ∃ r s', c.run.exec ⟨s, none⟩ = (r, ⟨s', none⟩) ∧
    (∀ key, c.key? ≠ some key → s'.get? key = s.get? key) ∧
    (∀ e, r = .error e ↔ ∃ cause, e = .store cause ∧ Fails s c cause) ∧
    (∀ e, r = .error e → s' = s) ∧ (c.primitive.looks = true → s' = s) := by
  cases hact : c.act s with
  | error cause =>
      refine ⟨_, s, exec_run_error hact, fun _ _ => rfl, fun e => ?_, fun _ _ => rfl, fun _ => rfl⟩
      simp only [← act_eq_error_iff, hact, Except.error.injEq, eq_comm (a := e), exists_eq_right']
  | ok out =>
      obtain ⟨a, s'⟩ := out
      have hno (cause : StoreError) : ¬ Fails s c cause := by
        rw [← act_eq_error_iff, hact]
        exact nofun
      refine ⟨_, s', exec_run_ok hact, fun key hkey => ?_, fun e => ?_, nofun, fun hc => ?_⟩
      · cases hc : c.primitive.looks with
        | true => rw [eq_of_act hc hact]
        | false =>
            obtain ⟨key', hkey', hputs⟩ := puts_of_act hc hact
            exact hputs.get?_ne fun heq => hkey (heq ▸ hkey')
      · exact iff_of_false nofun fun ⟨cause, _, hcause⟩ => hno cause hcause
      · exact eq_of_act hc hact

end Call

end Primitive

/-! ### Sequences of calls -/

namespace Store

open Primitive

variable {s s' : Store}

/-- A call leaves no empty collection behind. -/
theorem Full.exec (hs : s.Full) (c : Call) : (c.run.exec ⟨s, none⟩).2.store.Full := by
  cases hact : c.act s with
  | error cause =>
      rw [Call.exec_run_error hact]
      exact hs
  | ok out =>
      rw [Call.exec_run_ok hact]
      cases hc : c.primitive.looks with
      | true =>
          rw [Call.eq_of_act hc hact]
          exact hs
      | false =>
          obtain ⟨key, -, hputs⟩ := Call.puts_of_act hc hact
          exact hputs.full hs

/-- The store that calls leave, one after another, on a store without keys. A call that fails does
not end the sequence. -/
def ofCalls (calls : List Call) : Store :=
  calls.foldl (fun s c => (c.run.exec ⟨s, none⟩).2.store) ∅

theorem Full.foldl (hs : s.Full) (calls : List Call) :
    (calls.foldl (fun s c => (c.run.exec ⟨s, none⟩).2.store) s).Full := by
  induction calls generalizing s with
  | nil => exact hs
  | cons c calls ih => exact ih (hs.exec c)

theorem full_empty : (∅ : Store).Full := by
  rintro key e ⟨⟩

theorem full_ofCalls (calls : List Call) : (ofCalls calls).Full := full_empty.foldl calls

/-- Counting up stores the next number in decimal, and there is none after the greatest. -/
theorem exec_incr (s : Store) (key : String) :
    (∃ n s', s.number? key = some n ∧ n < Text.maxInt64 ∧
      (StoreM.incr key).exec ⟨s, none⟩ = (.ok (n + 1), ⟨s', none⟩) ∧
      s'.get? key = some (.text (toString (n + 1))) ∧ s'.number? key = some (n + 1)) ∨
    (s.number? key = none ∨ s.number? key = some Text.maxInt64) ∧
      ∃ cause, (StoreM.incr key).exec ⟨s, none⟩ = (.error (.store cause), ⟨s, none⟩) := by
  cases hn : s.number? key with
  | none =>
      refine Or.inr ⟨Or.inl rfl, ?_⟩
      rcases s.number?_cases key with hclash | ⟨v, hs, hv⟩ | ⟨n, hn'⟩
      · exact ⟨_, Call.exec_run_error (c := .incr key) (incr_of_clashes hclash)⟩
      · exact ⟨_, Call.exec_run_error (c := .incr key) (incr_of_int64?_eq_none hs hv)⟩
      · rw [hn] at hn'
        cases hn'
  | some n =>
      have hincr := incr_of_number? hn
      by_cases hlt : n < Text.maxInt64
      · rw [if_pos hlt] at hincr
        have hexec := Call.exec_run_ok (c := .incr key) hincr
        refine Or.inl ⟨n, _, rfl, hlt, hexec, ?_, number?_set hn hlt⟩
        rw [set, OrderedMap.get?_insert, if_pos rfl]
      · rw [if_neg hlt] at hincr
        have hmax := (number?_bounds hn).2
        obtain rfl : n = Text.maxInt64 := by omega
        exact Or.inr ⟨Or.inr rfl, _, Call.exec_run_error (c := .incr key) hincr⟩

/-- Whatever has been called, no key holds an empty collection, so a key without a kind is a key
that is not there. The next call changes its own key at most, and nothing if it only looks or fails;
it fails for the causes of `Primitive.Call.Fails`. Counting up goes to the next number or fails. -/
theorem primitives_atomic (calls : List Call) :
    (∀ key e, (ofCalls calls).get? key = some e → ¬ e.Vacant) ∧
    (∀ key, (StoreM.keyType key).exec ⟨ofCalls calls, none⟩ = (.ok .absent, ⟨ofCalls calls, none⟩) ↔
      (ofCalls calls).get? key = none) ∧
    (∀ c : Call, ∃ r s', c.run.exec ⟨ofCalls calls, none⟩ = (r, ⟨s', none⟩) ∧
      (∀ key, c.key? ≠ some key → s'.get? key = (ofCalls calls).get? key) ∧
      (∀ e, r = .error e ↔ ∃ cause, e = .store cause ∧ c.Fails (ofCalls calls) cause) ∧
      (∀ e, r = .error e → s' = ofCalls calls) ∧
      (c.primitive.looks = true → s' = ofCalls calls)) ∧
    ∀ key, (∃ n s', (ofCalls calls).number? key = some n ∧ n < Text.maxInt64 ∧
        (StoreM.incr key).exec ⟨ofCalls calls, none⟩ = (.ok (n + 1), ⟨s', none⟩) ∧
        s'.get? key = some (.text (toString (n + 1))) ∧ s'.number? key = some (n + 1)) ∨
      ((ofCalls calls).number? key = none ∨ (ofCalls calls).number? key = some Text.maxInt64) ∧
        ∃ cause, (StoreM.incr key).exec ⟨ofCalls calls, none⟩ =
          (.error (.store cause), ⟨ofCalls calls, none⟩) := by
  refine ⟨full_ofCalls calls, fun key => ?_, fun c => c.exec_run _, exec_incr (ofCalls calls)⟩
  rw [← keyType_eq_absent_iff, StoreM.keyType, StoreM.exec_look]
  exact ⟨fun h => Except.ok.inj (Prod.mk.inj h).1, fun h => by rw [h]; rfl⟩

/-- A member that is taken away changes no other key; neither counting past the greatest number nor
looking changes anything. -/
theorem sample_primitives_atomic :
    let s := ofCalls [.sadd "tags" "red", .set "visits" "9223372036854775807"]
    ((Call.srem "tags" "red").run.exec ⟨s, none⟩).2.store.get? "visits" = s.get? "visits" ∧
      (Call.incr "visits").run.exec ⟨s, none⟩ =
        (.error (.store (.overflow "visits")), ⟨s, none⟩) ∧
      ((Call.smembers "tags").run.exec ⟨s, none⟩).2.store = s := by
  intro s
  obtain ⟨-, -, hcalls, -⟩ :=
    primitives_atomic [.sadd "tags" "red", .set "visits" "9223372036854775807"]
  have hgreatest : s.number? "visits" = some Text.maxInt64 := by decide
  refine ⟨?_, ?_, ?_⟩
  · obtain ⟨r, s', hexec, hother, -⟩ := hcalls (.srem "tags" "red")
    rw [hexec]
    exact hother "visits" (by decide)
  · obtain ⟨r, s', hexec, -, hfails, herror, -⟩ := hcalls (.incr "visits")
    have hr := (hfails _).mpr ⟨_, rfl, .overflow hgreatest⟩
    rw [hexec, hr, herror _ hr]
  · obtain ⟨r, s', hexec, -, -, -, hlooks⟩ := hcalls (.smembers "tags")
    rw [hexec]
    exact hlooks rfl

end Store

end Tabular
