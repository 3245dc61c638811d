import Tabular.Proofs.Glob
import Tabular.Proofs.Layout
import Tabular.Store.Walk

/-!
Walks over a store that does not change. What is left to visit is always an end of the list of
keys, each page visits a beginning of it, and the pages together give every matching key once. The
bound on the number of pages is never reached. Deleting by pattern therefore leaves exactly the
keys that do not match.
-/

namespace Tabular

open Glob (matchesKey)

namespace Store

/-- The keys beyond a place are an end of an ascending list of keys. -/
theorem filter_lt_suffix (last : String) {keys : List String} (h : keys.Pairwise (· < ·)) :
    keys.filter (last < ·) <:+ keys := by
  induction keys with
  | nil => exact List.suffix_refl _
  | cons key rest ih =>
      obtain ⟨hkey, hrest⟩ := List.pairwise_cons.mp h
      by_cases hlt : last < key
      · have hall : ∀ x ∈ key :: rest, decide (last < x) = true := by
          intro x hx
          rcases List.mem_cons.mp hx with rfl | hx
          · exact decide_eq_true hlt
          · exact decide_eq_true (LinearKey.trans hlt (hkey x hx))
        exact ⟨[], (List.filter_eq_self.mpr hall)⟩
      · have hfilter : (key :: rest).filter (last < ·) = rest.filter (last < ·) :=
          List.filter_cons_of_neg fun hkey => hlt (of_decide_eq_true hkey)
        rw [hfilter]
        exact (ih hrest).trans (List.suffix_cons key rest)

theorem keysFrom_suffix (s : Store) (cursor : Cursor) : s.keysFrom cursor <:+ s.keys := by
  cases cursor with
  | start => exact List.suffix_refl _
  | after last => exact filter_lt_suffix last s.keys_pairwise
  | done => exact List.nil_suffix

/-- The keys beyond the last one visited are those that have not been visited. -/
theorem keysFrom_after {s : Store} {before rest : List String} {last : String}
    (h : s.keys = before ++ last :: rest) : s.keysFrom (.after last) = rest := by
  have hpairs := s.keys_pairwise
  rw [h, List.pairwise_append, List.pairwise_cons] at hpairs
  obtain ⟨-, ⟨hrest, -⟩, hbefore⟩ := hpairs
  have hleft : before.filter (last < ·) = [] := by
    apply List.filter_eq_nil_iff.mpr
    intro x hx hlt
    have hxl : x < last := hbefore x hx last (List.mem_cons_self ..)
    exact LinearKey.irrefl x (LinearKey.trans hxl (of_decide_eq_true hlt))
  have hright : rest.filter (last < ·) = rest :=
    List.filter_eq_self.mpr fun x hx => decide_eq_true (hrest x hx)
  rw [keysFrom, h, List.filter_append, hleft, List.nil_append,
    List.filter_cons_of_neg (by simp), hright]

section
variable (s : Store) {cursor : Cursor} (pattern : String) {count : Nat}

/-- When fewer keys are left than a page visits, the page visits them all and is the last one. -/
theorem scan_short (h : (s.keysFrom cursor).length < max count 1) :
    s.scan cursor pattern count = ⟨(s.keysFrom cursor).filter (matchesKey pattern), .done⟩ := by
  unfold scan
  dsimp only
  rw [List.take_of_length_le (Nat.le_of_lt h)]
  congr 1
  split
  · exact if_neg (Nat.ne_of_lt h)
  · rfl

/-- Otherwise it visits as many as it may, and the next page goes on behind the last of these. -/
theorem scan_full (h : max count 1 ≤ (s.keysFrom cursor).length) :
    ∃ last ∈ s.keysFrom cursor,
      s.scan cursor pattern count =
        ⟨((s.keysFrom cursor).take (max count 1)).filter (matchesKey pattern), .after last⟩ ∧
      s.keysFrom (.after last) = (s.keysFrom cursor).drop (max count 1) := by
  obtain ⟨before, hkeys⟩ := s.keysFrom_suffix cursor
  have hlen : ((s.keysFrom cursor).take (max count 1)).length = max count 1 := by
    rw [List.length_take, Nat.min_eq_left h]
  have hne : (s.keysFrom cursor).take (max count 1) ≠ [] :=
    List.ne_nil_of_length_pos (by rw [hlen]; exact Nat.le_max_right count 1)
  have hvisited := List.dropLast_concat_getLast hne
  generalize hlast : ((s.keysFrom cursor).take (max count 1)).getLast hne = last at hvisited
  refine ⟨last, List.mem_of_mem_take (hlast ▸ List.getLast_mem hne), ?_, ?_⟩
  · unfold scan
    dsimp only
    rw [List.getLast?_eq_some_getLast hne, hlast]
    exact congrArg (Page.mk _) (if_pos hlen)
  · have hpassed : s.keys = before ++ ((s.keysFrom cursor).take (max count 1)).dropLast ++
        last :: (s.keysFrom cursor).drop (max count 1) := calc
      s.keys = before ++ ((s.keysFrom cursor).take (max count 1) ++
          (s.keysFrom cursor).drop (max count 1)) := by rw [List.take_append_drop, hkeys]
      _ = before ++ (((s.keysFrom cursor).take (max count 1)).dropLast ++ [last] ++
          (s.keysFrom cursor).drop (max count 1)) := by rw [hvisited]
      _ = _ := by simp only [List.append_assoc, List.singleton_append]
    exact keysFrom_after hpassed

end

/-- A page gives the matching keys among those it visits, and goes on to the others. -/
theorem scan_keys (s : Store) (cursor : Cursor) (pattern : String) (count : Nat) :
    (s.scan cursor pattern count).keys ++
        (s.keysFrom (s.scan cursor pattern count).cursor).filter (matchesKey pattern) =
      (s.keysFrom cursor).filter (matchesKey pattern) ∧
    ((s.scan cursor pattern count).cursor = .done ∨
      (s.keysFrom (s.scan cursor pattern count).cursor).length < (s.keysFrom cursor).length) := by
  obtain hshort | hfull := Nat.lt_or_ge (s.keysFrom cursor).length (max count 1)
  · rw [s.scan_short pattern hshort]
    exact ⟨List.append_nil _, Or.inl rfl⟩
  · obtain ⟨last, -, hpage, hrest⟩ := s.scan_full pattern hfull
    rw [hpage, hrest, ← List.filter_append, List.take_append_drop, List.length_drop]
    exact ⟨rfl, Or.inr (by omega)⟩

end Store

namespace Walk

theorem exec_next (walk : Walk) (s : Store) :
    walk.next.exec ⟨s, none⟩ =
      (.ok ((s.scan walk.cursor walk.pattern walk.pageSize).keys,
        { walk with cursor := (s.scan walk.cursor walk.pattern walk.pageSize).cursor }),
        ⟨s, none⟩) := rfl

theorem exec_gather_done (pages : Nat) (pattern : String) (size : Nat) (σ : Session) :
    (gather pages ⟨pattern, size, .done⟩).exec σ = (.ok [], σ) := by
  cases pages <;> rfl

/-- With more pages than there are keys left, a walk gives all that match. -/
theorem exec_gather {s : Store} {pages : Nat} {walk : Walk}
    (h : (s.keysFrom walk.cursor).length < pages) :
    (gather pages walk).exec ⟨s, none⟩ =
      (.ok ((s.keysFrom walk.cursor).filter (matchesKey walk.pattern)), ⟨s, none⟩) := by
  induction pages generalizing walk with
  | zero => exact (Nat.not_lt_zero _ h).elim
  | succ pages ih =>
      obtain ⟨pattern, size, cursor⟩ := walk
      by_cases hdone : cursor = .done
      · subst hdone
        exact exec_gather_done ..
      · obtain ⟨hkeys, hleft⟩ := s.scan_keys cursor pattern size
        rw [gather, if_neg hdone, StoreM.exec_bind_ok (exec_next ..)]
        have hrest : (gather pages ⟨pattern, size, (s.scan cursor pattern size).cursor⟩).exec
            ⟨s, none⟩ = (.ok ((s.keysFrom (s.scan cursor pattern size).cursor).filter
              (matchesKey pattern)), ⟨s, none⟩) := by
          rcases hleft with hleft | hleft
          · rw [hleft]
            exact exec_gather_done ..
          · apply ih
            show (s.keysFrom (s.scan cursor pattern size).cursor).length < pages
            change (s.keysFrom cursor).length < pages + 1 at h
            omega
        rw [StoreM.exec_bind_ok hrest, StoreM.exec_pure, hkeys]

end Walk

namespace StoreM

/-- The walk over a whole store gives all keys that match. -/
theorem exec_matchingKeys (pattern : String) (pageSize : Nat) (s : Store) :
    (matchingKeys pattern pageSize).exec ⟨s, none⟩ =
      (.ok (s.keys.filter (matchesKey pattern)), ⟨s, none⟩) := by
  have hpages : (liftM maxPages : StoreM Nat).exec ⟨s, none⟩ = (.ok (s.size + 1), ⟨s, none⟩) := rfl
  rw [matchingKeys, exec_bind_ok hpages, Walk.exec_gather]
  · rfl
  · show s.keys.length < s.size + 1
    rw [OrderedMap.length_keys]
    omega

/-- Deleting keys that there are leaves all others. -/
theorem exec_delAll {keys : List String} {s : Store} (hkeys : ∀ key ∈ keys, key ∈ s)
    (hnodup : keys.Nodup) :
    (delAll keys).exec ⟨s, none⟩ =
      (.ok keys.length, ⟨OrderedMap.filter (fun key => decide (key ∉ keys)) s, none⟩) := by
  induction keys generalizing s with
  | nil =>
      have hall : OrderedMap.filter (fun key => decide (key ∉ ([] : List String))) s = s := by
        ext key
        simp
      rw [hall]
      rfl
  | cons key rest ih =>
      obtain ⟨hkey, hrest⟩ := List.nodup_cons.mp hnodup
      have hmem : ∀ x ∈ rest, x ∈ s.erase key := by
        intro x hx
        refine OrderedMap.mem_erase.mpr ⟨?_, hkeys x (List.mem_cons_of_mem _ hx)⟩
        rintro rfl
        exact hkey hx
      have hdel : (del key).exec ⟨s, none⟩ = (.ok true, ⟨s.erase key, none⟩) := by
        rw [del, exec_call, Store.del,
          OrderedMap.contains_iff.mpr (hkeys key (List.mem_cons_self ..))]
      have hstore : OrderedMap.filter (fun x => decide (x ∉ rest)) (s.erase key) =
          OrderedMap.filter (fun x => decide (x ∉ key :: rest)) s := by
        apply OrderedMap.ext
        intro x
        by_cases hx : x = key <;> by_cases hxr : x ∈ rest <;> simp [hx, hxr]
      rw [delAll, exec_bind_ok hdel, exec_bind_ok (ih hmem hrest), hstore]
      rfl

/-- Deleting by pattern leaves the keys that do not match, and counts the others. -/
theorem exec_delMatching (pattern : String) (pageSize : Nat) (s : Store) :
    (delMatching pattern pageSize).exec ⟨s, none⟩ =
      (.ok (s.keys.filter (matchesKey pattern)).length,
        ⟨OrderedMap.filter (fun key => !matchesKey pattern key) s, none⟩) := by
  have hmem : ∀ key ∈ s.keys.filter (matchesKey pattern), key ∈ s :=
    fun key hkey => OrderedMap.mem_keys.mp (List.mem_filter.mp hkey).1
  have hstore : OrderedMap.filter
        (fun key => decide (key ∉ s.keys.filter (matchesKey pattern))) s =
      OrderedMap.filter (fun key => !matchesKey pattern key) s := by
    apply OrderedMap.ext
    intro key
    by_cases hkey : key ∈ s
    · cases hm : matchesKey pattern key <;> simp [List.mem_filter, OrderedMap.mem_keys, hkey, hm]
    · rw [OrderedMap.get?_filter, OrderedMap.get?_filter, OrderedMap.get?_eq_none_iff.mpr hkey]
      simp
  rw [delMatching, exec_bind_ok (exec_matchingKeys ..), exec_delAll hmem (s.nodup_keys.filter _), hstore]

/-- In a layout, deleting by pattern empties the keys whose texts match. -/
theorem runs_delMatching {l l' : Layout} (pattern : String) (pageSize : Nat)
    (h : ∀ k : Key, k.Proper → l' k = if matchesKey pattern k.text then none else l k) :
    ∃ n, Runs (delMatching pattern pageSize) l (.ok n) l' := by
  by_cases hl : ∃ s : Store, s.Holds l
  · obtain ⟨s, hs⟩ := hl
    refine ⟨(s.keys.filter (matchesKey pattern)).length, fun s₁ hs₁ => ?_⟩
    rw [hs₁.unique hs]
    refine ⟨_, exec_delMatching pattern pageSize s, fun {k} hk => ?_, fun {x} hx => ?_⟩
    · rw [h k hk, OrderedMap.get?_filter, hs.lookup hk]
      cases matchesKey pattern k.text <;> rfl
    · rw [OrderedMap.get?_filter, hs.only hx]
      split <;> rfl
  · exact ⟨0, fun s hs => (hl ⟨s, hs⟩).elim⟩

/-- A list of the keys that match, each once, tells how many are deleted. -/
theorem runs_delMatching_count {l l' : Layout} (pattern : String) (pageSize : Nat)
    {keys : List Key} (hnodup : keys.Nodup)
    (hkeys : ∀ k, k ∈ keys ↔ k.Proper ∧ matchesKey pattern k.text = true ∧ (l k).isSome = true)
    (h : ∀ k : Key, k.Proper → l' k = if matchesKey pattern k.text then none else l k) :
    Runs (delMatching pattern pageSize) l (.ok keys.length) l' := by
  intro s hs
  have hperm : (s.keys.filter (matchesKey pattern)).Perm (keys.map Key.text) := by
    refine (List.perm_ext_iff_of_nodup (s.nodup_keys.filter _) ?_).mpr fun x => ?_
    · refine List.pairwise_map.mpr (hnodup.imp_of_mem fun {k k'} hk hk' hne heq => hne ?_)
      exact Key.text_injective ((hkeys k).mp hk).1 ((hkeys k').mp hk').1 heq
    · rw [List.mem_filter, List.mem_map, OrderedMap.mem_keys, OrderedMap.mem_iff_isSome]
      constructor
      · rintro ⟨hx, hmatch⟩
        obtain ⟨e, he⟩ := Option.isSome_iff_exists.mp hx
        obtain ⟨k, hk, rfl, hl⟩ := hs.exists_of_get? he
        exact ⟨k, (hkeys k).mpr ⟨hk, hmatch, by rw [hl]; rfl⟩, rfl⟩
      · rintro ⟨k, hk, rfl⟩
        obtain ⟨hproper, hmatch, hl⟩ := (hkeys k).mp hk
        exact ⟨by rw [hs.lookup hproper, hl], hmatch⟩
  have hlen := hperm.length_eq
  rw [List.length_map] at hlen
  obtain ⟨n, hdel⟩ := runs_delMatching pattern pageSize h
  obtain ⟨s', hexec, hs'⟩ := hdel s hs
  rw [exec_delMatching] at hexec
  obtain ⟨rfl, -⟩ := Session.mk.inj (Prod.mk.inj hexec).2
  exact ⟨_, by rw [exec_delMatching, hlen], hs'⟩

end StoreM

end Tabular
