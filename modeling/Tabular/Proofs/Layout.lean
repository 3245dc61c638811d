import Tabular.Proofs.KeyLayout
import Tabular.Proofs.OrderedMap
import Tabular.Proofs.Program

/-!
Stores described by what each key holds. A layout says it of keys and not of their texts, so a
show of one key leaves all others alone by definition; `Store.Holds` ties a layout to the store
whose keys are the texts of proper keys. `Runs` states what a program does between two layouts, and
there is one rule for each primitive.
-/

namespace Tabular

/-! ### Entries without empty collections -/

namespace Entry

/-- The entry that holds fields; none of them are held by no entry. -/
def ofHash (h : OrderedMap String String) : Option Entry :=
  if h.isEmpty then none else some (.hash h)

/-- The entry that holds members; none of them are held by no entry. -/
def ofSet (m : OrderedSet String) : Option Entry := if m.isEmpty then none else some (.set m)

/-- The entry of a counter that has counted to a number; zero is not kept. -/
def ofCount (n : Nat) : Option Entry := if n = 0 then none else some (.text (toString n))

@[simp] theorem ofHash_empty : ofHash ∅ = none := rfl

@[simp] theorem ofSet_empty : ofSet ∅ = none := rfl

@[simp] theorem ofCount_zero : ofCount 0 = none := rfl

/-- A hash without fields or a set without members. -/
def Vacant : Entry → Prop
  | text _ => False
  | hash h => h.isEmpty = true
  | set m => m.isEmpty = true

theorem not_vacant_ofHash {h : OrderedMap String String} {e : Entry} (he : ofHash h = some e) :
    ¬ e.Vacant := by
  unfold ofHash at he
  split at he
  · cases he
  · next hfull =>
      cases he
      exact hfull

theorem not_vacant_ofSet {m : OrderedSet String} {e : Entry} (he : ofSet m = some e) :
    ¬ e.Vacant := by
  unfold ofSet at he
  split at he
  · cases he
  · next hfull =>
      cases he
      exact hfull

theorem not_vacant_ofCount {n : Nat} {e : Entry} (he : ofCount n = some e) : ¬ e.Vacant := by
  unfold ofCount at he
  split at he
  · cases he
  · cases he
    exact id

theorem isSome_ofSet_iff {m : OrderedSet String} : (ofSet m).isSome = true ↔ ∃ x, x ∈ m := by
  rw [← OrderedMap.isEmpty_eq_false_iff, ofSet]
  cases m.isEmpty <;> simp

end Entry

namespace Store

/-- The fields of the hash at a key; none where there is no hash. -/
def fieldsAt (s : Store) (key : String) : OrderedMap String String :=
  match s.get? key with
  | some (.hash h) => h
  | _ => ∅

/-- The members of the set at a key; none where there is no set. -/
def membersAt (s : Store) (key : String) : OrderedSet String :=
  match s.get? key with
  | some (.set m) => m
  | _ => ∅

variable {s : Store} {key : String}

theorem fieldsAt_eq {h : OrderedMap String String} (hs : s.get? key = Entry.ofHash h) :
    s.fieldsAt key = h := by
  rw [fieldsAt, hs, Entry.ofHash]
  cases he : h.isEmpty with
  | true => rw [if_pos rfl, OrderedMap.eq_empty_of_isEmpty he]
  | false => simp

theorem membersAt_eq {m : OrderedSet String} (hs : s.get? key = Entry.ofSet m) :
    s.membersAt key = m := by
  rw [membersAt, hs, Entry.ofSet]
  cases he : m.isEmpty with
  | true => rw [if_pos rfl, OrderedMap.eq_empty_of_isEmpty he]
  | false => simp

theorem hgetall_eq {h : OrderedMap String String} (hs : s.get? key = Entry.ofHash h) :
    s.hgetall key = .ok h := by
  rw [hgetall, hs, Entry.ofHash]
  cases he : h.isEmpty with
  | true => rw [if_pos rfl, OrderedMap.eq_empty_of_isEmpty he]
  | false => simp

theorem smembers_eq {m : OrderedSet String} (hs : s.get? key = Entry.ofSet m) :
    s.smembers key = .ok m := by
  rw [smembers, hs, Entry.ofSet]
  cases he : m.isEmpty with
  | true => rw [if_pos rfl, OrderedMap.eq_empty_of_isEmpty he]
  | false => simp

theorem incr_of_get {v : String} {n : Int} (hget : s.get key = .ok (some v))
    (hv : Text.int64? v = some n) :
    s.incr key = if n < Text.maxInt64 then .ok (n + 1, s.set key (toString (n + 1)))
      else .error (.overflow key) := by
  have hcurrent : s.incr key = (pure n >>= fun current =>
      if current < Text.maxInt64 then pure (current + 1, s.set key (toString (current + 1)))
      else throw (.overflow key) : Except StoreError (Int × Store)) := by
    unfold incr
    rw [hget]
    simp only [bind, Except.bind, hv]
  rw [hcurrent]
  rfl

/-- Counting writes what it gives. -/
theorem incr_eq_ok {s' : Store} {n : Int} (h : s.incr key = .ok (n, s')) :
    s' = s.set key (toString n) := by
  obtain ⟨found, -, h⟩ := bind_eq_ok.mp h
  have hwrite {m : Int} (h : (if m < Text.maxInt64 then
      pure (m + 1, s.set key (toString (m + 1))) else throw (.overflow key) :
        Except StoreError (Int × Store)) = .ok (n, s')) : s' = s.set key (toString n) := by
    split at h
    · obtain ⟨rfl, rfl⟩ := Prod.mk.inj (Except.ok.inj h)
      rfl
    · cases h
  cases found with
  | none => exact hwrite (m := 0) h
  | some v =>
      dsimp only at h
      cases hv : Text.int64? v with
      | none =>
          rw [hv] at h
          cases h
      | some m =>
          rw [hv] at h
          exact hwrite h

/-- What a counter makes of one more count. -/
theorem incr_ofCount {n : Nat} (hs : s.get? key = Entry.ofCount n) (hn : (n : Int) ≤ Text.maxInt64) :
    s.incr key = if (n : Int) < Text.maxInt64 then
      .ok (((n + 1 : Nat) : Int), s.set key (toString (n + 1))) else .error (.overflow key) := by
  by_cases h0 : n = 0
  · subst h0
    have hget : s.get key = .ok none := by rw [get, hs, Entry.ofCount_zero]
    rw [incr, hget]
    rfl
  · have hget : s.get key = .ok (some (toString n)) := by rw [get, hs, Entry.ofCount, if_neg h0]
    exact incr_of_get hget (Text.int64?_toString hn)

theorem get?_putHash (h : OrderedMap String String) (x : String) :
    (s.putHash key h).get? x = if x = key then Entry.ofHash h else s.get? x := by
  unfold putHash Entry.ofHash
  cases he : h.isEmpty <;> simp

theorem get?_putSet (m : OrderedSet String) (x : String) :
    (s.putSet key m).get? x = if x = key then Entry.ofSet m else s.get? x := by
  unfold putSet Entry.ofSet
  cases he : m.isEmpty <;> simp

end Store

/-! ### Layouts -/

/-- What each key holds. -/
abbrev Layout := Key → Option Entry

/-- The layout in which one key holds something else. -/
def Layout.put (l : Layout) (k : Key) (e : Option Entry) : Layout :=
  fun k' => if k' = k then e else l k'

@[simp] theorem Layout.put_self (l : Layout) (k : Key) (e : Option Entry) : l.put k e k = e :=
  if_pos rfl

theorem Layout.put_ne (l : Layout) {k k' : Key} (e : Option Entry) (h : k' ≠ k) :
    l.put k e k' = l k' := if_neg h

namespace Store

/-- The store holds what the layout says under the texts of proper keys, and nothing else. -/
structure Holds (s : Store) (l : Layout) : Prop where
  lookup : ∀ {k : Key}, k.Proper → s.get? k.text = l k
  only : ∀ {x : String}, (∀ k : Key, k.Proper → k.text ≠ x) → s.get? x = none

namespace Holds

variable {s s' : Store} {l l' : Layout} {k : Key}

/-- A layout has one store. -/
theorem unique (h : s.Holds l) (h' : s'.Holds l) : s = s' := by
  apply OrderedMap.ext
  intro x
  by_cases hx : ∃ k : Key, k.Proper ∧ k.text = x
  · obtain ⟨k, hk, rfl⟩ := hx
    rw [h.lookup hk, h'.lookup hk]
  · have hx' : ∀ k : Key, k.Proper → k.text ≠ x := fun k hk heq => hx ⟨k, hk, heq⟩
    rw [h.only hx', h'.only hx']

/-- Only what a layout says of proper keys counts. -/
theorem congr (h : s.Holds l) (heq : ∀ k : Key, k.Proper → l k = l' k) : s.Holds l' :=
  ⟨fun hk => by rw [h.lookup hk, heq _ hk], h.only⟩

theorem put (h : s.Holds l) (hk : k.Proper) {e : Option Entry}
    (hs : ∀ x, s'.get? x = if x = k.text then e else s.get? x) : s'.Holds (l.put k e) := by
  refine ⟨fun {k'} hk' => ?_, fun {x} hx => ?_⟩
  · rw [hs, Layout.put, h.lookup hk']
    simp only [Key.text_inj hk' hk]
  · rw [hs, if_neg (fun heq => hx k hk heq.symm), h.only hx]

/-- What a key holds is held under its text, also where no store key is proper. -/
theorem exists_of_get? (h : s.Holds l) {x : String} {e : Entry} (hx : s.get? x = some e) :
    ∃ k : Key, k.Proper ∧ k.text = x ∧ l k = some e := by
  by_cases hk : ∃ k : Key, k.Proper ∧ k.text = x
  · obtain ⟨k, hk, rfl⟩ := hk
    exact ⟨k, hk, rfl, by rw [← h.lookup hk, hx]⟩
  · rw [h.only fun k hp heq => hk ⟨k, hp, heq⟩] at hx
    simp at hx

end Holds

end Store

/-! ### Programs between layouts -/

namespace StoreM

variable {α β : Type} {l l' l'' : Layout} {k : Key}

/-- From the store of one layout a program gives a result and leaves the store of another. -/
def Runs (p : StoreM α) (l : Layout) (r : Except Error α) (l' : Layout) : Prop :=
  ∀ s : Store, s.Holds l → ∃ s' : Store, p.exec ⟨s, none⟩ = (r, ⟨s', none⟩) ∧ s'.Holds l'

namespace Runs

variable {x : StoreM α} {f : α → StoreM β} {a : α} {e : Error} {r : Except Error β}

theorem ret (a : α) : Runs (pure a) l (.ok a) l := fun s h => ⟨s, rfl, h⟩

theorem throw (e : Error) : Runs (throwThe Error e : StoreM α) l (.error e) l :=
  fun s h => ⟨s, rfl, h⟩

theorem of_except (r : Except Error α) : Runs (ofExcept r) l r l :=
  fun s h => ⟨s, exec_ofExcept r _, h⟩

/-- A sequence whose first part succeeds runs on from where that leaves it. -/
theorem bind (hx : Runs x l (.ok a) l') (hf : Runs (f a) l' r l'') : Runs (x >>= f) l r l'' := by
  intro s hs
  obtain ⟨s', hexec, hs'⟩ := hx s hs
  obtain ⟨s'', hexec', hs''⟩ := hf s' hs'
  exact ⟨s'', by rw [exec_bind_ok hexec, hexec'], hs''⟩

/-- A sequence whose first part fails has failed. -/
theorem bind_error (hx : Runs x l (.error e) l') : Runs (x >>= f) l (.error e) l' := by
  intro s hs
  obtain ⟨s', hexec, hs'⟩ := hx s hs
  exact ⟨s', exec_bind_error hexec, hs'⟩

/-- A check that fails has failed the sequence; one that succeeds hands on its result. -/
theorem check {rx : Except Error α} {g : α → Except Error β} (hx : Runs x l rx l)
    (hf : ∀ a, rx = .ok a → Runs (f a) l (g a) l) : Runs (x >>= f) l (rx >>= g) l := by
  cases rx with
  | error e => exact bind_error hx
  | ok a => exact bind hx (hf a rfl)

/-- A program that leaves the layout alone leaves the store as it is. -/
theorem exec_eq {s : Store} {r : Except Error α} (h : Runs x l r l) (hs : s.Holds l) :
    x.exec ⟨s, none⟩ = (r, ⟨s, none⟩) := by
  obtain ⟨s', hexec, hs'⟩ := h s hs
  rw [hexec, hs'.unique hs]

/-- Two programs that run alike between layouts do the same to the store. -/
theorem exec_congr {y : StoreM α} {s : Store} {r : Except Error α} (hx : Runs x l r l')
    (hy : Runs y l r l') (hs : s.Holds l) : x.exec ⟨s, none⟩ = y.exec ⟨s, none⟩ := by
  obtain ⟨s₁, hexec₁, hs₁⟩ := hx s hs
  obtain ⟨s₂, hexec₂, hs₂⟩ := hy s hs
  rw [hexec₁, hexec₂, hs₁.unique hs₂]

end Runs

/-! ### The primitives -/

/-- A primitive that looks leaves the layout alone. -/
theorem runs_look (p : Primitive) {view : Store → Except StoreError α} {a : α}
    (h : ∀ s : Store, s.Holds l → view s = .ok a) : Runs (look p view) l (.ok a) l := by
  intro s hs
  refine ⟨s, ?_, hs⟩
  rw [exec_look, h s hs]
  rfl

/-- A primitive that writes one key changes what the layout says of it. -/
theorem runs_call (p : Primitive) {act : Store → Except StoreError (α × Store)} {a : α}
    {e : Option Entry} (hk : k.Proper)
    (h : ∀ s : Store, s.Holds l → ∃ s' : Store, act s = .ok (a, s') ∧
      ∀ x, s'.get? x = if x = k.text then e else s.get? x) :
    Runs (call p act) l (.ok a) (l.put k e) := by
  intro s hs
  obtain ⟨s', hact, hs'⟩ := h s hs
  refine ⟨s', ?_, hs.put hk hs'⟩
  rw [exec_call, hact]

theorem runs_keyType (hk : k.Proper) (type : KeyType)
    (h : ∀ s : Store, s.get? k.text = l k → s.keyType k.text = type) :
    Runs (keyType k.text) l (.ok type) l :=
  runs_look .keyType fun s hs => by rw [h s (hs.lookup hk)]

theorem runs_hget {h : OrderedMap String String} (hk : k.Proper) (hl : l k = Entry.ofHash h)
    (field : String) : Runs (hget k.text field) l (.ok (h.get? field)) l :=
  runs_look .hget fun s hs => by
    rw [Store.hget, Store.hgetall_eq ((hs.lookup hk).trans hl)]
    rfl

theorem runs_hgetall {h : OrderedMap String String} (hk : k.Proper) (hl : l k = Entry.ofHash h) :
    Runs (hgetall k.text) l (.ok h) l :=
  runs_look .hgetall fun _ hs => Store.hgetall_eq ((hs.lookup hk).trans hl)

theorem runs_smembers {m : OrderedSet String} (hk : k.Proper) (hl : l k = Entry.ofSet m) :
    Runs (smembers k.text) l (.ok m) l :=
  runs_look .smembers fun _ hs => Store.smembers_eq ((hs.lookup hk).trans hl)

theorem runs_set (hk : k.Proper) (value : String) :
    Runs (set k.text value) l (.ok ()) (l.put k (some (.text value))) :=
  runs_call .set hk fun s _ => ⟨_, rfl, fun x => OrderedMap.get?_insert s k.text _ x⟩

theorem runs_del (hk : k.Proper) : ∃ found, Runs (del k.text) l (.ok found) (l.put k none) := by
  refine ⟨(l k).isSome, runs_call .del hk fun s hs => ⟨s.erase k.text, ?_, ?_⟩⟩
  · rw [Store.del, OrderedMap.contains, hs.lookup hk]
  · exact OrderedMap.get?_erase s k.text

theorem runs_hset {h : OrderedMap String String} (hk : k.Proper) (hl : l k = Entry.ofHash h)
    (field value : String) :
    Runs (hset k.text field value) l (.ok (!h.contains field))
      (l.put k (Entry.ofHash (h.insert field value))) :=
  runs_call .hset hk fun s hs => by
    refine ⟨s.putHash k.text (h.insert field value), ?_, Store.get?_putHash _⟩
    rw [Store.hset, Store.hgetall_eq ((hs.lookup hk).trans hl)]
    rfl

theorem runs_sadd {m : OrderedSet String} (hk : k.Proper) (hl : l k = Entry.ofSet m)
    (member : String) :
    Runs (sadd k.text member) l (.ok (!m.contains member))
      (l.put k (Entry.ofSet (OrderedSet.add m member))) :=
  runs_call .sadd hk fun s hs => by
    refine ⟨s.putSet k.text (OrderedSet.add m member), ?_, Store.get?_putSet _⟩
    rw [Store.sadd, Store.smembers_eq ((hs.lookup hk).trans hl)]
    rfl

theorem runs_srem {m : OrderedSet String} (hk : k.Proper) (hl : l k = Entry.ofSet m)
    (member : String) :
    Runs (srem k.text member) l (.ok (m.contains member))
      (l.put k (Entry.ofSet (m.erase member))) :=
  runs_call .srem hk fun s hs => by
    refine ⟨s.putSet k.text (m.erase member), ?_, Store.get?_putSet _⟩
    rw [Store.srem, Store.smembers_eq ((hs.lookup hk).trans hl)]
    rfl

/-- A counter below the greatest 64-bit number counts on. -/
theorem runs_incr {n : Nat} (hk : k.Proper) (hl : l k = Entry.ofCount n)
    (hn : (n : Int) < Text.maxInt64) :
    Runs (incr k.text) l (.ok ((n + 1 : Nat) : Int)) (l.put k (Entry.ofCount (n + 1))) :=
  runs_call .incr hk fun s hs => by
    refine ⟨s.set k.text (toString (n + 1)), ?_, fun x => OrderedMap.get?_insert s k.text _ x⟩
    rw [Store.incr_ofCount ((hs.lookup hk).trans hl) (Int.le_of_lt hn), if_pos hn]

/-- A counter at the greatest 64-bit number stays there. -/
theorem runs_incr_overflow {n : Nat} (hk : k.Proper) (hl : l k = Entry.ofCount n)
    (hn : (n : Int) = Text.maxInt64) :
    Runs (incr k.text) l (.error (.store (.overflow k.text))) l := by
  intro s hs
  refine ⟨s, ?_, hs⟩
  rw [incr, exec_call, Store.incr_ofCount ((hs.lookup hk).trans hl) (Int.le_of_eq hn),
    if_neg (Int.not_lt.mpr (Int.le_of_eq hn.symm))]

end StoreM

end Tabular
