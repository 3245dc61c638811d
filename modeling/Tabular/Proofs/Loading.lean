import Tabular.Proofs.Snapshot

/-!
Which files can be loaded, and as what. A file is loaded if it is the right header around a payload
that begins with a list of contents, whatever the order of the list and whatever it says twice
(`load_exact`). A list that fits makes a store that fits, since a store says nothing twice, so what
has been loaded can be saved and loaded again.
-/

namespace Tabular

namespace OrderedMap

variable {κ α : Type} [LT κ] [DecidableEq κ] [LinearKey κ] [DecidableLT κ]

theorem mem_of_mem_toList_ofList {l : List (κ × α)} {b : κ × α} (h : b ∈ (ofList l).toList) :
    b ∈ l := by
  have hlookup : l.reverse.lookup b.1 = some b.2 := by
    rw [← get?_ofList_eq_lookup, get?_eq_some_iff]
    exact h
  obtain ⟨before, after, hsplit, -⟩ := List.lookup_eq_some_iff.mp hlookup
  rw [← List.mem_reverse, hsplit]
  exact List.mem_append_right before List.mem_cons_self

theorem length_toList_ofList_le (l : List (κ × α)) : (ofList l).toList.length ≤ l.length := by
  have hsub : (ofList l).keys ⊆ l.map (·.1) := by
    intro k hk
    obtain ⟨b, hb, rfl⟩ := List.mem_map.mp hk
    exact List.mem_map_of_mem (mem_of_mem_toList_ofList hb)
  calc (ofList l).toList.length
      = (ofList l).keys.length := (length_keys _).symm
    _ ≤ (l.map (·.1)).length := (List.subperm_of_subset (nodup_keys _) hsub).length_le
    _ = l.length := List.length_map ..

end OrderedMap

theorem OrderedSet.length_members_ofMembers_le (xs : List String) :
    (OrderedSet.ofMembers xs).members.length ≤ xs.length := by
  have hsub : (OrderedSet.ofMembers xs).members ⊆ xs := fun _ hx =>
    OrderedSet.mem_ofMembers.mp (OrderedSet.mem_members.mp hx)
  exact (List.subperm_of_subset (OrderedMap.nodup_keys _) hsub).length_le

namespace Snapshot

/-! ### Values and contents as they are listed -/

/-- What a listed value stands for: of two values of one field the later counts, and a member counts
once. -/
def Record.Denotes : Record → Entry → Prop
  | .text value, .text value' => value' = value
  | .hash fields, .hash h => ∀ field, h.get? field = fields.reverse.lookup field
  | .set members, .set m => ∀ x, x ∈ m ↔ x ∈ members
  | _, _ => False

/-- What listed contents stand for: of two values of one key the later counts, and a key that is not
listed holds nothing. -/
def Denote (records : List (String × Record)) (s : Store) : Prop :=
  ∀ key, Option.Rel Record.Denotes (records.reverse.lookup key) (s.get? key)

theorem Record.denotes_iff {r : Record} {e : Entry} : r.Denotes e ↔ e = r.toEntry := by
  cases r with
  | text value => cases e <;> simp [Denotes, toEntry]
  | hash fields =>
      cases e with
      | hash h =>
          rw [toEntry, Entry.hash.injEq]
          constructor
          · intro hlast
            ext field : 1
            rw [hlast, OrderedMap.get?_ofList_eq_lookup]
          · rintro rfl field
            exact OrderedMap.get?_ofList_eq_lookup fields field
      | text _ | set _ => simp [Denotes, toEntry]
  | set members =>
      cases e with
      | set m =>
          rw [toEntry, Entry.set.injEq]
          constructor
          · intro hmem
            apply OrderedSet.ext_mem
            intro x
            rw [hmem, OrderedSet.mem_ofMembers]
          · rintro rfl x
            exact OrderedSet.mem_ofMembers
      | text _ | hash _ => simp [Denotes, toEntry]

theorem get?_ofRecords (records : List (String × Record)) (key : String) :
    (ofRecords records).get? key = (records.reverse.lookup key).map Record.toEntry := by
  have hmap (l : List (String × Record)) :
      (l.map fun b => (b.1, b.2.toEntry)).lookup key = (l.lookup key).map Record.toEntry := by
    induction l with
    | nil => rfl
    | cons b rest ih =>
        rw [List.map_cons, List.lookup_cons, List.lookup_cons, ih]
        cases key == b.1 <;> rfl
  show (OrderedMap.ofList (records.map fun b => (b.1, b.2.toEntry))).get? key = _
  rw [OrderedMap.get?_ofList_eq_lookup, ← List.map_reverse, hmap]

/-- Contents stand for one store. -/
theorem denote_iff {records : List (String × Record)} {s : Store} :
    Denote records s ↔ s = ofRecords records := by
  have hrel (r : Option Record) (e : Option Entry) :
      Option.Rel Record.Denotes r e ↔ e = r.map Record.toEntry := by
    cases r <;> cases e <;> simp [Record.denotes_iff]
  unfold Denote
  constructor
  · intro h
    ext key : 1
    rw [get?_ofRecords, (hrel _ _).mp (h key)]
  · rintro rfl key
    exact (hrel _ _).mpr (get?_ofRecords records key)

/-! ### Contents that fit -/

theorem ListFits.ofList {α : Type} {fits : String × α → Prop} {l : List (String × α)}
    (h : ListFits fits l) : ListFits fits (OrderedMap.ofList l).toList := by
  refine ⟨Nat.lt_of_le_of_lt (OrderedMap.length_toList_ofList_le l) h.1, fun b hb => ?_⟩
  exact h.2 b (OrderedMap.mem_of_mem_toList_ofList hb)

/-- A value that is listed as it is held takes no more room than before. -/
theorem RecordFits.ofEntry_toEntry {r : Record} (h : RecordFits r) :
    RecordFits (.ofEntry r.toEntry) := by
  cases r with
  | text value => exact h
  | hash fields => exact ListFits.ofList h
  | set members =>
      have hlength := OrderedSet.length_members_ofMembers_le members
      refine ⟨Nat.lt_of_le_of_lt hlength h.1, fun x hx => ?_⟩
      exact h.2 x (OrderedSet.mem_ofMembers.mp (OrderedSet.mem_members.mp hx))

theorem fits_ofRecords {l : List (String × Record)} (h : RecordsFit l) : Fits (ofRecords l) := by
  have hentries : ListFits (PairFits StringFits fun e => RecordFits (.ofEntry e))
      (l.map fun b => (b.1, b.2.toEntry)) := by
    refine ⟨(List.length_map ..).trans_lt h.1, List.forall_mem_map.mpr fun b hb => ?_⟩
    exact ⟨(h.2 b hb).1, (h.2 b hb).2.ofEntry_toEntry⟩
  obtain ⟨hlength, hall⟩ := hentries.ofList
  exact ⟨(List.length_map ..).trans_lt hlength, List.forall_mem_map.mpr hall⟩

/-! ### Files -/

theorem readHeader_eq_some_iff {file payload : List UInt8} {found expected : Nat} :
    readHeader file = some ((found, expected), payload) ↔
      (found < 256 ^ 4 ∧ expected < 256 ^ 4) ∧
        file = magic ++ (putNat 4 found ++ putNat 4 expected) ++ payload := by
  have hread : readPair (readNat 4) (readNat 4) (file.drop magic.length) =
        some ((found, expected), payload) ↔
      (found < 256 ^ 4 ∧ expected < 256 ^ 4) ∧
        file.drop magic.length = putNat 4 found ++ putNat 4 expected ++ payload :=
    ((inverts_nat 4).pair (inverts_nat 4)).eq_some_iff
  rw [List.append_assoc]
  constructor
  · intro h
    unfold readHeader at h
    split at h
    · next hmagic =>
        obtain ⟨tail, rfl⟩ := List.isPrefixOf_iff_prefix.mp hmagic
        obtain ⟨hfits, htail⟩ := hread.mp h
        rw [List.drop_left] at htail
        exact ⟨hfits, congrArg (magic ++ ·) htail⟩
    · cases h
  · rintro ⟨hfits, rfl⟩
    have hmagic := List.isPrefixOf_iff_prefix.mpr (List.prefix_append magic
      (putNat 4 found ++ putNat 4 expected ++ payload))
    rw [readHeader, if_pos hmagic]
    exact hread.mpr ⟨hfits, List.drop_left⟩

/-- A file whose header is not the right one for what comes after it is refused for its header. -/
theorem decode_of_ne_wrap {file : List UInt8} (h : ∀ payload, file ≠ wrap payload) :
    ∃ cause, cause ≠ .malformed ∧ decode file = .error cause := by
  unfold decode
  cases hheader : readHeader file with
  | none => exact ⟨.header, by simp, rfl⟩
  | some header =>
      obtain ⟨⟨found, expected⟩, payload⟩ := header
      by_cases hversion : found = version
      · by_cases hchecksum : (checksum payload).toNat = expected
        · subst hversion hchecksum
          obtain ⟨-, hfile⟩ := readHeader_eq_some_iff.mp hheader
          refine (h payload ?_).elim
          simp only [hfile, wrap, List.append_assoc]
        · refine ⟨.checksum expected (checksum payload).toNat, by simp, ?_⟩
          simp only [hversion, hchecksum, ne_eq, not_true_eq_false, not_false_eq_true, if_true,
            if_false]
          rfl
      · refine ⟨.version found version, by simp, ?_⟩
        simp only [hversion, ne_eq, not_false_eq_true, if_true]
        rfl

theorem load_eq_ok_iff {file : List UInt8} {s : Store} :
    load (some file) = .ok s ↔
      ∃ records rest, RecordsFit records ∧ file = wrap (putRecords records ++ rest) ∧
        Denote records s := by
  simp only [denote_iff]
  constructor
  · intro h
    by_cases hwrap : ∃ payload, file = wrap payload
    · obtain ⟨payload, rfl⟩ := hwrap
      rw [load, decode_wrap] at h
      cases hread : readRecords payload with
      | none =>
          rw [hread] at h
          cases h
      | some out =>
          obtain ⟨records, rest⟩ := out
          obtain ⟨hfits, rfl⟩ := inverts_records.eq_some_iff.mp hread
          rw [hread] at h
          exact ⟨records, rest, hfits, rfl, (Except.ok.inj h).symm⟩
    · obtain ⟨cause, -, hcause⟩ := decode_of_ne_wrap fun payload heq => hwrap ⟨payload, heq⟩
      rw [load, hcause] at h
      cases h
  · rintro ⟨records, rest, hfits, rfl, rfl⟩
    rw [load, decode_wrap, inverts_records.eq_some_iff.mpr ⟨hfits, rfl⟩]
    rfl

/-- A file is loaded if it is the right header around a payload that begins with a list of contents
that fit, as the store that the contents stand for, and what is loaded is loaded again after it has
been saved. -/
theorem load_exact (file : List UInt8) :
    ((∃ s, load (some file) = .ok s) ↔
      ∃ records rest, RecordsFit records ∧ file = wrap (putRecords records ++ rest)) ∧
    (∀ s, load (some file) = .ok s ↔
      ∃ records rest, RecordsFit records ∧ file = wrap (putRecords records ++ rest) ∧
        Denote records s) ∧
    ∀ s, load (some file) = .ok s → load (some (encode s)) = .ok s := by
  refine ⟨⟨?_, ?_⟩, fun s => load_eq_ok_iff, ?_⟩
  · rintro ⟨s, hs⟩
    obtain ⟨records, rest, hfits, hfile, -⟩ := load_eq_ok_iff.mp hs
    exact ⟨records, rest, hfits, hfile⟩
  · rintro ⟨records, rest, hfits, hfile⟩
    exact ⟨_, load_eq_ok_iff.mpr ⟨records, rest, hfits, hfile, denote_iff.mpr rfl⟩⟩
  · intro s hs
    obtain ⟨records, -, hfits, -, hdenote⟩ := load_eq_ok_iff.mp hs
    obtain rfl := denote_iff.mp hdenote
    exact load_encode (fits_ofRecords hfits)

/-- Contents out of order, with a key, a field and a member that are listed twice. -/
def sampleRecords : List (String × Record) :=
  [("word", .text "one"), ("row", .hash [("name", "ann"), ("age", "7"), ("name", "bob")]),
    ("rows", .set ["2", "1", "2"]), ("word", .text "two")]

theorem sample_load_exact :
    let s : Store := .ofList
      [("row", .hash (.ofList [("age", "7"), ("name", "bob")])),
        ("rows", .set (.ofMembers ["1", "2"])), ("word", .text "two")]
    load (some (wrap (putRecords sampleRecords ++ [0xff]))) = .ok s ∧
      load (some (encode s)) = .ok s := by
  intro s
  have hfits : ListFits (PairFits StringFits RecordFits) sampleRecords := by decide +kernel
  have hdenote : Denote sampleRecords s := denote_iff.mpr (by decide +kernel)
  obtain ⟨-, hload, hagain⟩ := load_exact (wrap (putRecords sampleRecords ++ [0xff]))
  have hs := (hload s).mpr ⟨sampleRecords, [0xff], hfits, rfl, hdenote⟩
  exact ⟨hs, hagain s hs⟩

end Snapshot

end Tabular
