import Mathlib.Data.List.Perm.Subperm
import Tabular.OrderedMap

/-!
The theory of finite maps and sets beyond lookup: which keys a map has, its restriction to some of
them, and folds over its bindings. Membership is membership of the key. Two sets with the same
members are equal.
-/

namespace Tabular

namespace OrderedMap

variable {κ α β : Type} [LT κ]

instance : Membership κ (OrderedMap κ α) := ⟨fun m k => k ∈ m.keys⟩

/-- The bindings whose keys satisfy a test. -/
def filter (p : κ → Bool) (m : OrderedMap κ α) : OrderedMap κ α :=
  ⟨m.toList.filter (fun b => p b.1), m.ascending.filter _⟩

/-- The map with every value replaced by what a function makes of it and its key. -/
def mapWithKey (f : κ → α → β) (m : OrderedMap κ α) : OrderedMap κ β :=
  ⟨m.toList.map (fun b => (b.1, f b.1 b.2)), m.ascending.map _ (fun _ _ h => h)⟩

theorem mapWithKey_self (m : OrderedMap κ α) : m.mapWithKey (fun _ v => v) = m := by
  obtain ⟨l, hl⟩ := m
  simp only [mapWithKey, List.map_id']

theorem mapWithKey_mapWithKey {γ : Type} (f : κ → α → β) (g : κ → β → γ) (m : OrderedMap κ α) :
    (m.mapWithKey f).mapWithKey g = m.mapWithKey fun k v => g k (f k v) := by
  simp only [mapWithKey, List.map_map, Function.comp_def]

theorem mem_keys {m : OrderedMap κ α} {k : κ} : k ∈ m.keys ↔ k ∈ m := Iff.rfl

theorem keys_pairwise (m : OrderedMap κ α) : m.keys.Pairwise (· < ·) :=
  List.pairwise_map.mpr m.ascending

theorem nodup_keys [LinearKey κ] (m : OrderedMap κ α) : m.keys.Nodup :=
  m.keys_pairwise.imp fun {a b} hlt => by
    rintro rfl
    exact LinearKey.irrefl a hlt

theorem length_keys (m : OrderedMap κ α) : m.keys.length = m.size := List.length_map ..

theorem size_le_of_subset [LinearKey κ] {m : OrderedMap κ α} {m' : OrderedMap κ β}
    (h : ∀ k ∈ m, k ∈ m') : m.size ≤ m'.size := by
  rw [← length_keys, ← length_keys]
  exact (m.nodup_keys.subperm h).length_le

theorem keys_filter (p : κ → Bool) (m : OrderedMap κ α) : (m.filter p).keys = m.keys.filter p :=
  (List.filter_map ..).symm

theorem isEmpty_iff {m : OrderedMap κ α} : m.isEmpty = true ↔ ∀ k, k ∉ m := by
  rw [isEmpty, List.isEmpty_iff]
  constructor
  · intro h k hk
    rw [← mem_keys, keys, h] at hk
    simp at hk
  · intro h
    cases hm : m.toList with
    | nil => rfl
    | cons c rest =>
        refine absurd ?_ (h c.1)
        rw [← mem_keys, keys, hm]
        simp

theorem isEmpty_eq_false_iff {m : OrderedMap κ α} : m.isEmpty = false ↔ ∃ k, k ∈ m := by
  rw [← Bool.not_eq_true, isEmpty_iff, not_forall]
  simp only [not_not]

variable [DecidableEq κ]

omit [LT κ] in
theorem lookupIn_isSome_iff {k : κ} {l : List (κ × α)} :
    (lookupIn k l).isSome ↔ k ∈ l.map (·.1) := by
  induction l with
  | nil => simp [lookupIn]
  | cons c rest ih =>
      by_cases h : k = c.1
      · simp [lookupIn, h]
      · simp [lookupIn, h, ih]

theorem mem_iff_isSome {m : OrderedMap κ α} {k : κ} : k ∈ m ↔ (m.get? k).isSome :=
  lookupIn_isSome_iff.symm

theorem mem_of_get? {m : OrderedMap κ α} {k : κ} {v : α} (h : m.get? k = some v) : k ∈ m := by
  rw [mem_iff_isSome, h]
  rfl

theorem get?_eq_none_iff {m : OrderedMap κ α} {k : κ} : m.get? k = none ↔ k ∉ m := by
  rw [mem_iff_isSome, Option.isSome_iff_ne_none, not_not]

instance (m : OrderedMap κ α) (k : κ) : Decidable (k ∈ m) :=
  decidable_of_iff _ mem_iff_isSome.symm

@[simp] theorem contains_iff {m : OrderedMap κ α} {k : κ} : m.contains k = true ↔ k ∈ m :=
  mem_iff_isSome.symm

theorem contains_eq_decide (m : OrderedMap κ α) (k : κ) : m.contains k = decide (k ∈ m) := by
  rw [Bool.eq_iff_iff, contains_iff, decide_eq_true_iff]

@[simp] theorem notMem_empty (k : κ) : k ∉ (∅ : OrderedMap κ α) := by simp [mem_iff_isSome]

@[simp] theorem mem_insert [DecidableLT κ] [LinearKey κ] {m : OrderedMap κ α} {k x : κ} {v : α} :
    x ∈ m.insert k v ↔ x = k ∨ x ∈ m := by
  by_cases h : x = k <;> simp [mem_iff_isSome, h]

@[simp] theorem mem_erase {m : OrderedMap κ α} {k x : κ} : x ∈ m.erase k ↔ x ≠ k ∧ x ∈ m := by
  by_cases h : x = k <;> simp [mem_iff_isSome, h]

/-! ### Bindings and lookups -/

omit [LT κ] in
theorem lookupIn_map (f : α → β) (k : κ) (l : List (κ × α)) :
    lookupIn k (l.map fun b => (b.1, f b.2)) = (lookupIn k l).map f := by
  induction l with
  | nil => rfl
  | cons c rest ih => by_cases h : k = c.1 <;> simp [lookupIn, h, ih]

@[simp] theorem get?_mapValues (f : α → β) (m : OrderedMap κ α) (k : κ) :
    (m.mapValues f).get? k = (m.get? k).map f := lookupIn_map f k m.toList

@[simp] theorem mem_mapValues {f : α → β} {m : OrderedMap κ α} {k : κ} :
    k ∈ m.mapValues f ↔ k ∈ m := by simp [mem_iff_isSome]

omit [LT κ] in
theorem lookupIn_mapWithKey (f : κ → α → β) (k : κ) (l : List (κ × α)) :
    lookupIn k (l.map fun b => (b.1, f b.1 b.2)) = (lookupIn k l).map (f k) := by
  induction l with
  | nil => rfl
  | cons c rest ih =>
      by_cases h : k = c.1
      · subst h
        simp [lookupIn]
      · simp [lookupIn, h, ih]

@[simp] theorem get?_mapWithKey (f : κ → α → β) (m : OrderedMap κ α) (k : κ) :
    (m.mapWithKey f).get? k = (m.get? k).map (f k) := lookupIn_mapWithKey f k m.toList

@[simp] theorem mem_mapWithKey {f : κ → α → β} {m : OrderedMap κ α} {k : κ} :
    k ∈ m.mapWithKey f ↔ k ∈ m := by simp [mem_iff_isSome]

omit [LT κ] in
theorem lookupIn_filter (p : κ → Bool) (k : κ) (l : List (κ × α)) :
    lookupIn k (l.filter fun b => p b.1) = if p k then lookupIn k l else none := by
  induction l with
  | nil => simp [lookupIn]
  | cons c rest ih =>
      by_cases hc : p c.1
      · rw [List.filter_cons_of_pos (by simpa using hc), lookupIn, lookupIn, ih]
        by_cases hk : k = c.1 <;> simp [hk, hc]
      · rw [List.filter_cons_of_neg (by simpa using hc), ih]
        by_cases hk : k = c.1 <;> simp [lookupIn, hk, hc]

@[simp] theorem get?_filter (p : κ → Bool) (m : OrderedMap κ α) (k : κ) :
    (m.filter p).get? k = if p k then m.get? k else none := lookupIn_filter p k m.toList

@[simp] theorem mem_filter {p : κ → Bool} {m : OrderedMap κ α} {k : κ} :
    k ∈ m.filter p ↔ k ∈ m ∧ p k = true := by
  by_cases h : p k <;> simp [mem_iff_isSome, h]

section
variable [LinearKey κ]

theorem lookupIn_eq_some_iff {k : κ} {v : α} {l : List (κ × α)}
    (h : l.Pairwise (fun a b => a.1 < b.1)) : lookupIn k l = some v ↔ (k, v) ∈ l := by
  induction l with
  | nil => simp [lookupIn]
  | cons c rest ih =>
      obtain ⟨hc, hrest⟩ := List.pairwise_cons.mp h
      by_cases hk : k = c.1
      · have hnot : (k, v) ∉ rest := fun hmem => LinearKey.irrefl k (by
          simpa [← hk] using hc _ hmem)
        simp only [lookupIn, hk, if_true, Option.some.injEq, List.mem_cons]
        rw [← hk, or_iff_left hnot, Prod.ext_iff]
        simp [hk, eq_comm]
      · rw [lookupIn, if_neg hk, ih hrest, List.mem_cons, or_iff_right]
        exact fun heq => hk (congrArg Prod.fst heq)

/-- A map has exactly the bindings that lookups find. -/
theorem get?_eq_some_iff {m : OrderedMap κ α} {k : κ} {v : α} :
    m.get? k = some v ↔ (k, v) ∈ m.toList := lookupIn_eq_some_iff m.ascending

theorem eq_empty_of_isEmpty {m : OrderedMap κ α} (h : m.isEmpty = true) : m = ∅ := by
  ext k
  rw [get?_eq_none_iff.mpr (isEmpty_iff.mp h k), get?_empty]

theorem erase_of_notMem {m : OrderedMap κ α} {k : κ} (h : k ∉ m) : m.erase k = m := by
  ext x
  by_cases hx : x = k
  · rw [hx, get?_erase, if_pos rfl, get?_eq_none_iff.mpr h]
  · rw [get?_erase, if_neg hx]

variable [DecidableLT κ]

@[simp] theorem isEmpty_insert (m : OrderedMap κ α) (k : κ) (v : α) :
    (m.insert k v).isEmpty = false := isEmpty_eq_false_iff.mpr ⟨k, by simp⟩

theorem get?_foldl_insert {l : List (κ × α)} (h : l.Pairwise (fun a b => a.1 < b.1))
    (m : OrderedMap κ α) (k : κ) :
    (l.foldl (fun m b => m.insert b.1 b.2) m).get? k = (lookupIn k l).or (m.get? k) := by
  induction l generalizing m with
  | nil => simp [lookupIn]
  | cons c rest ih =>
      obtain ⟨hc, hrest⟩ := List.pairwise_cons.mp h
      rw [List.foldl_cons, ih hrest, get?_insert, lookupIn]
      by_cases hk : k = c.1
      · rw [hk, lookupIn_eq_none_of_lt hc]
        simp
      · simp [hk]

/-- Of two bindings of one key the later counts. -/
theorem get?_ofList_eq_lookup (l : List (κ × α)) (k : κ) :
    (ofList l).get? k = l.reverse.lookup k := by
  have hfold : ∀ (l : List (κ × α)) (m : OrderedMap κ α),
      (l.foldl (fun m b => m.insert b.1 b.2) m).get? k = (l.reverse.lookup k).or (m.get? k) := by
    intro l
    induction l with
    | nil => exact fun _ => rfl
    | cons c rest ih =>
        intro m
        rw [List.foldl_cons, ih, get?_insert, List.reverse_cons, List.lookup_append,
          Option.or_assoc, List.lookup_cons, List.lookup_nil]
        congr 1
        by_cases hk : k = c.1
        · simp [hk]
        · simp [hk, beq_eq_false_iff_ne.mpr hk]
  rw [ofList, hfold, get?_empty, Option.or_none]

/-- The bindings of one map put into another, over those it has. -/
def extend (m new : OrderedMap κ α) : OrderedMap κ α :=
  new.toList.foldl (fun m b => m.insert b.1 b.2) m

@[simp] theorem get?_extend (m new : OrderedMap κ α) (k : κ) :
    (m.extend new).get? k = (new.get? k).or (m.get? k) := get?_foldl_insert new.ascending m k

@[simp] theorem mem_extend {m new : OrderedMap κ α} {k : κ} :
    k ∈ m.extend new ↔ k ∈ new ∨ k ∈ m := by
  rw [mem_iff_isSome, get?_extend, Option.isSome_or, Bool.or_eq_true, mem_iff_isSome,
    mem_iff_isSome]

@[simp] theorem extend_empty (new : OrderedMap κ α) : extend ∅ new = new := by
  ext k
  simp

/-- A new key makes a map one larger. -/
theorem size_insert_of_notMem {m : OrderedMap κ α} {k : κ} (h : k ∉ m) (v : α) :
    (m.insert k v).size = m.size + 1 := by
  have hkeys : (m.insert k v).keys.Perm (k :: m.keys) := by
    apply (List.perm_ext_iff_of_nodup (nodup_keys _) (List.nodup_cons.mpr ⟨h, m.nodup_keys⟩)).mpr
    intro x
    rw [mem_keys, mem_insert, List.mem_cons, mem_keys]
  rw [← length_keys, hkeys.length_eq, List.length_cons, length_keys]

/-- A map is read back from its bindings. -/
@[simp] theorem ofList_toList (m : OrderedMap κ α) : ofList m.toList = m := extend_empty m

end

end OrderedMap

namespace OrderedSet

variable {κ : Type} [LT κ]

theorem mem_members {s : OrderedSet κ} {x : κ} : x ∈ s.members ↔ x ∈ s := Iff.rfl

variable [DecidableEq κ] [LinearKey κ]

/-- A set is determined by its members. -/
theorem ext_mem {s t : OrderedSet κ} (h : ∀ x, x ∈ s ↔ x ∈ t) : s = t := by
  apply OrderedMap.ext
  intro x
  have hiff := h x
  rw [OrderedMap.mem_iff_isSome, OrderedMap.mem_iff_isSome] at hiff
  cases hs : s.get? x <;> cases ht : t.get? x <;> simp_all

variable [DecidableLT κ]

@[simp] theorem mem_add {s : OrderedSet κ} {x y : κ} : y ∈ OrderedSet.add s x ↔ y = x ∨ y ∈ s :=
  OrderedMap.mem_insert

theorem add_of_mem {s : OrderedSet κ} {x : κ} (h : x ∈ s) : OrderedSet.add s x = s := by
  apply ext_mem
  intro y
  rw [mem_add, or_iff_right_of_imp]
  rintro rfl
  exact h

theorem mem_foldl_add {xs : List κ} {s : OrderedSet κ} {x : κ} :
    x ∈ xs.foldl OrderedSet.add s ↔ x ∈ xs ∨ x ∈ s := by
  induction xs generalizing s with
  | nil => simp
  | cons y ys ih => rw [List.foldl_cons, ih, mem_add, List.mem_cons, or_left_comm, or_assoc]

@[simp] theorem mem_ofMembers {xs : List κ} {x : κ} : x ∈ OrderedSet.ofMembers xs ↔ x ∈ xs := by
  simp [ofMembers, mem_foldl_add]

/-- A set is read back from its members. -/
@[simp] theorem ofMembers_members (s : OrderedSet κ) : ofMembers s.members = s := by
  apply ext_mem
  intro x
  rw [mem_ofMembers, mem_members]

@[simp] theorem mem_union {s t : OrderedSet κ} {x : κ} :
    x ∈ OrderedSet.union s t ↔ x ∈ s ∨ x ∈ t := by
  rw [union, mem_foldl_add, mem_members, or_comm]

end OrderedSet

end Tabular
