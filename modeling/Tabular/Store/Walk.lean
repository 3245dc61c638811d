import Tabular.Store.Session

/-!
Walks over the keys of a store, a page at a time. A walk keeps its place between pages and may go
on after the store has changed. Each page but the last visits at least one key beyond the place
reached, so a walk over a store that does not change ends after one page more than it has keys.
-/

namespace Tabular

/-- A walk over the keys that match a pattern, and the place it has reached. -/
structure Walk where
  pattern : String
  pageSize : Nat
  cursor : Cursor
  deriving DecidableEq, Repr

namespace Walk

/-- A walk that has yet to begin. Its pages visit one key at least. -/
def begin (pattern : String) (pageSize : Nat) : Walk := ⟨pattern, max pageSize 1, .start⟩

/-- The matching keys of the next page, and the walk from there on. -/
def next (walk : Walk) : StoreM (List String × Walk) := do
  let page ← StoreM.scan walk.cursor walk.pattern walk.pageSize
  return (page.keys, { walk with cursor := page.cursor })

/-- The matching keys of at most `pages` more pages. -/
def gather : Nat → Walk → StoreM (List String)
  | 0, _ => return []
  | pages + 1, walk => do
      if walk.cursor = .done then return []
      let (keys, walk) ← walk.next
      return keys ++ (← gather pages walk)

/-- The pages of a walk, at most a given number, each with the place reached after it. A page that
fails ends the walk. -/
def pages : Nat → Walk → StateM Session (List (Except Error (List String) × Cursor))
  | 0, _ => return []
  | pages + 1, walk => do
      if walk.cursor = .done then return []
      match ← walk.next.run with
      | .ok (keys, walk) => return (.ok keys, walk.cursor) :: (← Walk.pages pages walk)
      | .error e => return [(.error e, .done)]

end Walk

namespace StoreM

/-- The greatest number of pages of a walk over the store as it is. -/
def maxPages : StateM Session Nat := return (← MonadState.get).store.size + 1

/-- All keys that match a pattern. -/
def matchingKeys (pattern : String) (pageSize : Nat) : StoreM (List String) := do
  Walk.gather (← maxPages) (.begin pattern pageSize)

/-- Deletes keys one by one and counts those that there were. -/
def delAll : List String → StoreM Nat
  | [] => return 0
  | key :: rest => do
      let found ← del key
      let n ← delAll rest
      return if found then n + 1 else n

/-- Deletes all keys that match a pattern and counts them. The keys are gathered before the first
is deleted. -/
def delMatching (pattern : String) (pageSize : Nat) : StoreM Nat := do
  delAll (← matchingKeys pattern pageSize)

end StoreM

end Tabular
