/-!
Finite maps kept as their bindings in strictly increasing key order. The order is part of the
type, so a map has one representation: `OrderedMap.ext` says that two maps with the same lookups
are equal. Lookups after `insert` and `erase` are `get?_insert` and `get?_erase`. Finite sets are
maps to `Unit`; an `Enumeration` goes through them in an order of its own.
-/

namespace Tabular

/-- A strict order in which any two keys can be compared. -/
class LinearKey (κ : Type) [LT κ] : Prop where
  irrefl (a : κ) : ¬ a < a
  trans {a b c : κ} : a < b → b < c → a < c
  connected {a b : κ} : ¬ a < b → ¬ b < a → a = b

instance : LinearKey String where
  irrefl _ := Std.lt_irrefl
  trans := Std.lt_trans
  connected h h' := Std.le_antisymm (Std.not_lt.mp h') (Std.not_lt.mp h)

instance : LinearKey Nat where
  irrefl := Nat.lt_irrefl
  trans := Nat.lt_trans
  connected h h' := by omega

/-- A finite map: its bindings in strictly increasing key order. -/
structure OrderedMap (κ α : Type) [LT κ] where
  toList : List (κ × α)
  ascending : toList.Pairwise (fun a b => a.1 < b.1) := by simp
  deriving DecidableEq

/-- A finite set: its members in strictly increasing order. -/
abbrev OrderedSet (κ : Type) [LT κ] := OrderedMap κ Unit

namespace OrderedMap

variable {κ α β : Type}

/-! ### Bindings in a list -/

/-- The value of the first binding of a key in a list of bindings. -/
def lookupIn [DecidableEq κ] (x : κ) : List (κ × α) → Option α
  | [] => none
  | b :: rest => if x = b.1 then some b.2 else lookupIn x rest

theorem lookupIn_filter_ne [DecidableEq κ] (k x : κ) (l : List (κ × α)) :
    lookupIn x (l.filter (fun b => b.1 ≠ k)) = if x = k then none else lookupIn x l := by
  induction l with
  | nil => simp [lookupIn]
  | cons c rest ih =>
      by_cases hc : c.1 = k
      · rw [List.filter_cons_of_neg (by simpa using hc), ih]
        by_cases hx : x = k <;> simp [lookupIn, hc, hx]
      · rw [List.filter_cons_of_pos (by simpa using hc), lookupIn, lookupIn, ih]
        by_cases hx : x = c.1 <;> simp [hx, hc]

/-! ### Maps -/

variable [LT κ]

/-- The map without bindings. -/
def empty : OrderedMap κ α := ⟨[], by simp⟩

instance : EmptyCollection (OrderedMap κ α) := ⟨empty⟩
instance : Inhabited (OrderedMap κ α) := ⟨empty⟩

def isEmpty (m : OrderedMap κ α) : Bool := m.toList.isEmpty

def size (m : OrderedMap κ α) : Nat := m.toList.length

/-- The keys in increasing order. -/
def keys (m : OrderedMap κ α) : List κ := m.toList.map (·.1)

/-- The value bound to a key. -/
def get? [DecidableEq κ] (m : OrderedMap κ α) (k : κ) : Option α := lookupIn k m.toList

def contains [DecidableEq κ] (m : OrderedMap κ α) (k : κ) : Bool := (m.get? k).isSome

/-- The map without the key. -/
def erase [DecidableEq κ] (m : OrderedMap κ α) (k : κ) : OrderedMap κ α :=
  ⟨m.toList.filter (fun b => b.1 ≠ k), m.ascending.filter _⟩

/-- The map with every value replaced by its image. -/
def mapValues (f : α → β) (m : OrderedMap κ α) : OrderedMap κ β :=
  ⟨m.toList.map (fun b => (b.1, f b.2)), m.ascending.map _ (fun _ _ h => h)⟩

/-- Puts a binding at its place in a list of bindings; a binding of the same key gives way. -/
def insertInto [DecidableLT κ] (k : κ) (v : α) : List (κ × α) → List (κ × α)
  | [] => [(k, v)]
  | b :: rest =>
      if k < b.1 then (k, v) :: b :: rest
      else if b.1 < k then b :: insertInto k v rest
      else (k, v) :: rest

theorem mem_insertInto [DecidableLT κ] {k : κ} {v : α} {b : κ × α} {l : List (κ × α)}
    (h : b ∈ insertInto k v l) : b = (k, v) ∨ b ∈ l := by
  induction l with
  | nil => simpa [insertInto] using h
  | cons c rest ih =>
      simp only [insertInto] at h
      split at h
      · simpa using h
      · split at h
        · rcases List.mem_cons.mp h with rfl | h
          · exact Or.inr (List.mem_cons_self ..)
          · exact (ih h).imp_right (List.mem_cons_of_mem _)
        · rcases List.mem_cons.mp h with rfl | h
          · exact Or.inl rfl
          · exact Or.inr (List.mem_cons_of_mem _ h)

theorem ascending_insertInto [DecidableLT κ] [LinearKey κ] (k : κ) (v : α) {l : List (κ × α)}
    (h : l.Pairwise (fun a b => a.1 < b.1)) :
    (insertInto k v l).Pairwise (fun a b => a.1 < b.1) := by
  induction l with
  | nil => simp [insertInto]
  | cons c rest ih =>
      obtain ⟨hc, hrest⟩ := List.pairwise_cons.mp h
      simp only [insertInto]
      split
      · next hk =>
          refine List.pairwise_cons.mpr ⟨fun b hb => ?_, h⟩
          rcases List.mem_cons.mp hb with rfl | hb
          · exact hk
          · exact LinearKey.trans hk (hc b hb)
      · next hk =>
          split
          · next hk' =>
              refine List.pairwise_cons.mpr ⟨fun b hb => ?_, ih hrest⟩
              rcases mem_insertInto hb with rfl | hb
              · exact hk'
              · exact hc b hb
          · next hk' =>
              obtain rfl : k = c.1 := LinearKey.connected hk hk'
              exact List.pairwise_cons.mpr ⟨hc, hrest⟩

/-- The map with the key bound to the value, whatever it was bound to before. -/
def insert [DecidableLT κ] [LinearKey κ] (m : OrderedMap κ α) (k : κ) (v : α) : OrderedMap κ α :=
  ⟨insertInto k v m.toList, ascending_insertInto k v m.ascending⟩

/-- The map of a list of bindings in any order; of two bindings of one key the later counts. -/
def ofList [DecidableLT κ] [LinearKey κ] (bindings : List (κ × α)) : OrderedMap κ α :=
  bindings.foldl (fun m b => m.insert b.1 b.2) ∅

/-! ### Lookup -/

section
variable [DecidableEq κ]

theorem lookupIn_insertInto [DecidableLT κ] [LinearKey κ] (k : κ) (v : α) (x : κ)
    (l : List (κ × α)) :
    lookupIn x (insertInto k v l) = if x = k then some v else lookupIn x l := by
  induction l with
  | nil => rfl
  | cons c rest ih =>
      simp only [insertInto]
      split
      · rfl
      · next hk =>
          split
          · next hk' =>
              have hne : c.1 ≠ k := fun h => LinearKey.irrefl k (h ▸ hk')
              by_cases h : x = c.1
              · simp [lookupIn, h, hne]
              · simp [lookupIn, h, ih]
          · next hk' =>
              obtain rfl : k = c.1 := LinearKey.connected hk hk'
              by_cases h : x = c.1 <;> simp [lookupIn, h]

@[simp] theorem get?_empty (x : κ) : (∅ : OrderedMap κ α).get? x = none := rfl

@[simp] theorem get?_insert [DecidableLT κ] [LinearKey κ] (m : OrderedMap κ α) (k : κ) (v : α)
    (x : κ) : (m.insert k v).get? x = if x = k then some v else m.get? x :=
  lookupIn_insertInto k v x m.toList

@[simp] theorem get?_erase (m : OrderedMap κ α) (k x : κ) :
    (m.erase k).get? x = if x = k then none else m.get? x :=
  lookupIn_filter_ne k x m.toList

theorem lookupIn_eq_none_of_lt [LinearKey κ] {x : κ} {l : List (κ × α)}
    (h : ∀ b ∈ l, x < b.1) : lookupIn x l = none := by
  induction l with
  | nil => rfl
  | cons c rest ih =>
      have hne : x ≠ c.1 := fun hx => LinearKey.irrefl x (by simpa [← hx] using h c (by simp))
      rw [lookupIn, if_neg hne]
      exact ih fun b hb => h b (List.mem_cons_of_mem _ hb)

theorem not_lt_of_lookupIn_eq [LinearKey κ] {c c' : κ × α} {l l' : List (κ × α)}
    (h' : (c' :: l').Pairwise (fun a b => a.1 < b.1))
    (hlookup : lookupIn c.1 (c :: l) = lookupIn c.1 (c' :: l')) : ¬ c.1 < c'.1 := by
  intro hlt
  have hnone : lookupIn c.1 (c' :: l') = none := lookupIn_eq_none_of_lt fun b hb => by
    rcases List.mem_cons.mp hb with rfl | hb
    · exact hlt
    · exact LinearKey.trans hlt ((List.pairwise_cons.mp h').1 b hb)
  rw [hnone] at hlookup
  simp [lookupIn] at hlookup

theorem eq_of_lookupIn_eq [LinearKey κ] {l l' : List (κ × α)}
    (h : l.Pairwise (fun a b => a.1 < b.1)) (h' : l'.Pairwise (fun a b => a.1 < b.1))
    (hlookup : ∀ x, lookupIn x l = lookupIn x l') : l = l' := by
  induction l generalizing l' with
  | nil =>
      cases l' with
      | nil => rfl
      | cons c' rest' => simpa [lookupIn] using hlookup c'.1
  | cons c rest ih =>
      cases l' with
      | nil => simpa [lookupIn] using hlookup c.1
      | cons c' rest' =>
          have hkey : c.1 = c'.1 :=
            LinearKey.connected (not_lt_of_lookupIn_eq h' (hlookup c.1))
              (not_lt_of_lookupIn_eq h (hlookup c'.1).symm)
          have hvalue : c.2 = c'.2 := by simpa [lookupIn, hkey] using hlookup c.1
          obtain rfl : c = c' := Prod.ext hkey hvalue
          obtain ⟨hc, hrest⟩ := List.pairwise_cons.mp h
          obtain ⟨hc', hrest'⟩ := List.pairwise_cons.mp h'
          refine congrArg (c :: ·) (ih hrest hrest' fun x => ?_)
          by_cases hx : x = c.1
          · rw [hx, lookupIn_eq_none_of_lt hc, lookupIn_eq_none_of_lt hc']
          · simpa [lookupIn, hx] using hlookup x

/-- A map is determined by its lookups. -/
@[ext] theorem ext [LinearKey κ] {m m' : OrderedMap κ α} (h : ∀ x, m.get? x = m'.get? x) :
    m = m' := by
  obtain ⟨l, hl⟩ := m
  obtain ⟨l', hl'⟩ := m'
  obtain rfl := eq_of_lookupIn_eq hl hl' h
  rfl

end

end OrderedMap

namespace OrderedSet

variable {κ : Type} [LT κ]

/-- The members in increasing order. -/
def members (s : OrderedSet κ) : List κ := s.keys

/-- The set with one more member. -/
def add [DecidableLT κ] [LinearKey κ] (s : OrderedSet κ) (x : κ) : OrderedSet κ := s.insert x ()

/-- The set of the elements of a list. -/
def ofMembers [DecidableLT κ] [LinearKey κ] (xs : List κ) : OrderedSet κ := xs.foldl add ∅

/-- The members of either set. -/
def union [DecidableLT κ] [LinearKey κ] (s t : OrderedSet κ) : OrderedSet κ := t.members.foldl add s

end OrderedSet

/-- A way to go through the members of every set, each of them once. -/
structure Enumeration (κ : Type) [LT κ] where
  list : OrderedSet κ → List κ
  perm : ∀ set : OrderedSet κ, (list set).Perm set.members

namespace Enumeration

variable {κ : Type} [LT κ]

def ascending : Enumeration κ := ⟨OrderedSet.members, fun _ => List.Perm.refl _⟩

def descending : Enumeration κ := ⟨fun set => set.members.reverse, fun _ => List.reverse_perm _⟩

end Enumeration

end Tabular
