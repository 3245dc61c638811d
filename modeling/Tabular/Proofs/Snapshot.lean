import Tabular.Proofs.OrderedMap
import Tabular.Proofs.Wire
import Tabular.Snapshot.File

/-!
Snapshot files keep stores. What is written of a store is read back as the same store, whatever
bytes come after it in the payload (`decode_encode`). This takes lengths that fit into eight bytes.
-/

namespace Tabular.Snapshot

/-! ### Payloads -/

def RecordFits : Record → Prop
  | .text value => StringFits value
  | .hash fields => ListFits (PairFits StringFits StringFits) fields
  | .set members => ListFits StringFits members

instance : DecidablePred RecordFits
  | .text value => inferInstanceAs (Decidable (StringFits value))
  | .hash fields => inferInstanceAs (Decidable (ListFits (PairFits StringFits StringFits) fields))
  | .set members => inferInstanceAs (Decidable (ListFits StringFits members))

def RecordsFit (records : List (String × Record)) : Prop :=
  ListFits (PairFits StringFits RecordFits) records

/-- The number of keys fits into eight bytes, and so do all lengths in keys and values. No memory
with addresses of 64 bits holds a store that does not fit. -/
def Fits (s : Store) : Prop := RecordsFit (records s)

instance (s : Store) : Decidable (Fits s) :=
  inferInstanceAs (Decidable (ListFits (PairFits StringFits RecordFits) _))

theorem inverts_record : Inverts readRecord putRecord RecordFits := by
  have hhash := (inverts_string.pair inverts_string).list
  have hset := inverts_string.list
  constructor
  intro bytes r rest
  simp only [readRecord, Option.bind_eq_bind, Option.bind_eq_some_iff, Prod.exists]
  constructor
  · rintro ⟨kind, tail, hkind, hr⟩
    obtain ⟨-, rfl⟩ := (inverts_nat 4).eq_some_iff.mp hkind
    -- the kind says which of the three writers the other bytes are from
    split at hr
    · obtain ⟨value, rfl, hfits, rfl⟩ := inverts_string.map_eq_some_iff.mp hr
      exact ⟨hfits, (List.append_assoc ..).symm⟩
    · obtain ⟨fields, rfl, hfits, rfl⟩ := hhash.map_eq_some_iff.mp hr
      exact ⟨hfits, (List.append_assoc ..).symm⟩
    · obtain ⟨members, rfl, hfits, rfl⟩ := hset.map_eq_some_iff.mp hr
      exact ⟨hfits, (List.append_assoc ..).symm⟩
    · cases hr
  · rintro ⟨hfits, rfl⟩
    have hkind {kind : Nat} (h : kind < 256 ^ 4) (value : List UInt8) :
        readNat 4 ((putNat 4 kind ++ value) ++ rest) = some (kind, value ++ rest) :=
      (inverts_nat 4).eq_some_iff.mpr ⟨h, List.append_assoc ..⟩
    cases r with
    | text value =>
        exact ⟨0, _, hkind (by decide) _,
          inverts_string.map_eq_some_iff.mpr ⟨value, rfl, hfits, rfl⟩⟩
    | hash fields =>
        exact ⟨1, _, hkind (by decide) _, hhash.map_eq_some_iff.mpr ⟨fields, rfl, hfits, rfl⟩⟩
    | set members =>
        exact ⟨2, _, hkind (by decide) _, hset.map_eq_some_iff.mpr ⟨members, rfl, hfits, rfl⟩⟩

theorem inverts_records : Inverts readRecords putRecords RecordsFit :=
  (inverts_string.pair inverts_record).list

theorem Record.toEntry_ofEntry (e : Entry) : (Record.ofEntry e).toEntry = e := by
  cases e with
  | text value => rfl
  | hash fields => rw [ofEntry, toEntry, OrderedMap.ofList_toList]
  | set members => rw [ofEntry, toEntry, OrderedSet.ofMembers_members]

/-- A store is made again of its contents. -/
theorem ofRecords_records (s : Store) : ofRecords (records s) = s := by
  have hentries : (records s).map (fun b => (b.1, b.2.toEntry)) = s.toList := by
    rw [records, List.map_map]
    simp only [Function.comp_def, Record.toEntry_ofEntry, List.map_id']
  rw [ofRecords, hentries, OrderedMap.ofList_toList]

/-! ### Files -/

theorem readHeader_wrap (payload : List UInt8) :
    readHeader (wrap payload) = some ((version, (checksum payload).toNat), payload) := by
  have hmagic (rest : List UInt8) : magic.isPrefixOf (magic ++ rest) = true :=
    List.isPrefixOf_iff_prefix.mpr (List.prefix_append ..)
  have hversion : version < 256 ^ 4 := by decide
  have hchecksum : (checksum payload).toNat < 256 ^ 4 := (checksum payload).isLt
  have hwrap : wrap payload =
      magic ++ (putPair (putNat 4) (putNat 4) (version, (checksum payload).toNat) ++ payload) := by
    simp only [wrap, putPair, List.append_assoc]
  calc readHeader (wrap payload)
      = readPair (readNat 4) (readNat 4)
          (putPair (putNat 4) (putNat 4) (version, (checksum payload).toNat) ++ payload) := by
        rw [hwrap, readHeader, if_pos (hmagic _), List.drop_left]
    _ = some ((version, (checksum payload).toNat), payload) :=
        ((inverts_nat 4).pair (inverts_nat 4)).eq_some_iff.mpr ⟨⟨hversion, hchecksum⟩, rfl⟩

/-- The header of a file is the right one for its payload. -/
theorem decode_wrap (payload : List UInt8) :
    decode (wrap payload) =
      match readRecords payload with
      | some (records, _) => .ok (ofRecords records)
      | none => .error .malformed := by
  simp only [decode, readHeader_wrap, ne_eq, not_true_eq_false, if_false]
  rfl

/-- Contents that fit are read back from a file, whatever comes after them. -/
theorem decode_wrap_records {s : Store} (hs : Fits s) (extra : List UInt8) :
    decode (wrap (putRecords (records s) ++ extra)) = .ok s := by
  rw [decode_wrap, inverts_records.eq_some_iff.mpr ⟨hs, rfl⟩]
  exact congrArg Except.ok (ofRecords_records s)

/-- What is saved can be loaded. -/
theorem load_encode {s : Store} (hs : Fits s) : load (some (encode s)) = .ok s := by
  have hdecode := decode_wrap_records hs []
  rw [List.append_nil] at hdecode
  rw [load, encode, hdecode]
  rfl

/-- A store is read back from its file, also if more bytes come after the contents and the checksum
covers them. -/
theorem decode_encode {s : Store} (hs : Fits s) :
    decode (encode s) = .ok s ∧
      ∀ extra : List UInt8, decode (wrap (putRecords (records s) ++ extra)) = .ok s := by
  refine ⟨?_, decode_wrap_records hs⟩
  rw [encode, ← List.append_nil (putRecords (records s))]
  exact decode_wrap_records hs []

/-- A store with values of each kind, and texts of more than one byte a character. -/
def sample : Store :=
  .ofList
    [("größe", .text "ünï"), ("rows", .set (.ofMembers ["", "1", "∀"])),
      ("row", .hash (.ofList [("name", "ann"), ("", "😀")]))]

theorem decode_encode_sample :
    Fits sample ∧ decode (encode sample) = .ok sample ∧
      ∀ extra : List UInt8, decode (wrap (putRecords (records sample) ++ extra)) = .ok sample := by
  have hs : Fits sample := by decide +kernel
  exact ⟨hs, decode_encode hs⟩

end Tabular.Snapshot
