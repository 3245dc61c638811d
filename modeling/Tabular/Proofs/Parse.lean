import Tabular.Command.Basic
import Tabular.Proofs.KeyLayout
import Tabular.Proofs.Program

/-!
What a command that has been read is like: its table has a name that can be cut at its first dot,
and the columns it defines have no colon in their names. This is all that keys need to be told
apart.
-/

namespace Tabular

theorem TableName.proper_of_parse {s : String} {t : TableName} (h : TableName.parse s = .ok t) :
    t.Proper := by
  unfold TableName.parse at h
  split at h
  · next ht =>
      obtain rfl := Except.ok.inj h
      obtain ⟨hdot, hns, htable, -⟩ := ofText?_eq_some_iff.mp ht
      exact ⟨hdot, hns, htable⟩
  · cases h

/-- The name of a column is what its specification has before the first colon. -/
theorem Column.exists_cut_of_parse {spec : String} {column : Column}
    (h : Column.parse spec = .ok column) :
    column.name ≠ "" ∧ ∃ rest, Text.cut? ':' spec = some (column.name, rest) := by
  unfold Column.parse at h
  cases hcut : Text.cut? ':' spec with
  | none =>
      rw [hcut] at h
      cases h
  | some halves =>
      obtain ⟨name, rest⟩ := halves
      rw [hcut] at h
      dsimp only at h
      split at h
      · cases h
      · next hne =>
          split at h
          · next type _ =>
              have hkind : ∃ kind : IndexKind,
                  Except.ok (⟨name, type, kind.isIndexed⟩ : Column) =
                    (Except.ok column : Except SyntaxError Column) := by
                split at h
                · obtain ⟨kind, -, h⟩ := bind_eq_ok.mp h
                  exact ⟨kind, h⟩
                · exact ⟨IndexKind.none, h⟩
              obtain ⟨kind, hkind⟩ := hkind
              obtain rfl := Except.ok.inj hkind
              exact ⟨hne, rest, rfl⟩
          · cases h

theorem Column.notMem_of_parse {spec : String} {column : Column}
    (h : Column.parse spec = .ok column) : ':' ∉ column.name.toList := by
  obtain ⟨-, rest, hcut⟩ := exists_cut_of_parse h
  exact (Text.cut?_eq_some_iff.mp hcut).1

namespace Command

/-- The columns that a command defines. -/
def newColumns : Command → List Column
  | .createTable _ columns => columns
  | .addColumn _ column => [column]
  | _ => []

/-- A command as a line may write it out. -/
structure Proper (c : Command) : Prop where
  table : ∀ {t}, c.table? = some t → t.Proper
  columns : ∀ {column}, column ∈ c.newColumns → ':' ∉ column.name.toList

theorem proper_of_table {c : Command} {s : String} {t : TableName} (ht : TableName.parse s = .ok t)
    (htable : c.table? = some t) (hcolumns : c.newColumns = []) : c.Proper where
  table h := by
    obtain rfl := Option.some.inj (htable.symm.trans h)
    exact TableName.proper_of_parse ht
  columns h := by
    rw [hcolumns] at h
    cases h

theorem reading_eq_ok {α : Type} {r : Except SyntaxError α} {a : α} :
    reading r = .ok a ↔ r = .ok a := by
  cases r with
  | error e => exact iff_of_false (fun h => by cases h) (fun h => by cases h)
  | ok b =>
      exact ⟨fun h => congrArg Except.ok (Except.ok.inj h), fun h => congrArg Except.ok (Except.ok.inj h)⟩

theorem proper_of_readAlter {s action target operand : String} {t : TableName} {c : Command}
    (ht : TableName.parse s = .ok t) (h : readAlter t action target operand = .ok c) :
    c.Proper := by
  unfold readAlter at h
  split at h
  · cases hcolumn : Column.parse operand with
    | error e =>
        rw [hcolumn] at h
        cases h
    | ok column =>
        rw [hcolumn] at h
        obtain rfl : addColumn t column = c := Except.ok.inj h
        refine ⟨fun htable => ?_, fun hc => ?_⟩
        · obtain rfl := Option.some.inj htable
          exact TableName.proper_of_parse ht
        · obtain rfl := List.mem_singleton.mp hc
          exact Column.notMem_of_parse hcolumn
  · split at h
    · obtain rfl : addIndex t operand = c := Except.ok.inj h
      exact proper_of_table ht rfl rfl
    · split at h
      · obtain rfl : dropIndex t operand = c := Except.ok.inj h
        exact proper_of_table ht rfl rfl
      · cases h

theorem proper_of_readUpdate {s : String} {words : List String} {t : TableName} {c : Command}
    (ht : TableName.parse s = .ok t) (h : readUpdate t words = .ok c) : c.Proper := by
  unfold readUpdate at h
  dsimp only at h
  split at h
  · cases h
  · obtain ⟨clause, -, h⟩ := bind_eq_ok.mp h
    split at h
    · cases h
    · obtain ⟨fields, -, h⟩ := bind_eq_ok.mp h
      obtain rfl : update t clause fields = c := Except.ok.inj h
      exact proper_of_table ht rfl rfl

theorem exists_of_mem_mapM {ε α β : Type} {f : α → Except ε β} {l : List α} {l' : List β}
    (h : l.mapM f = .ok l') {b : β} (hb : b ∈ l') : ∃ a, f a = .ok b := by
  induction l generalizing l' with
  | nil =>
      obtain rfl : [] = l' := Except.ok.inj h
      cases hb
  | cons a rest ih =>
      rw [List.mapM_cons] at h
      obtain ⟨b', hb', h⟩ := bind_eq_ok.mp h
      obtain ⟨rest', hrest, h⟩ := bind_eq_ok.mp h
      obtain rfl : b' :: rest' = l' := Except.ok.inj h
      rcases List.mem_cons.mp hb with rfl | hb
      · exact ⟨a, hb'⟩
      · exact ih hrest hb

/-- A command that is about no table. -/
theorem proper_of_no_table {c : Command} (htable : c.table? = none) (hcolumns : c.newColumns = []) :
    c.Proper where
  table h := by
    rw [htable] at h
    cases h
  columns h := by
    rw [hcolumns] at h
    cases h

theorem proper_of_ofArguments {verb : Verb} {args : List String} {c : Command}
    (h : ofArguments verb args = .ok c) : c.Proper := by
  unfold ofArguments at h
  -- the cases are the rows of the definition in their order; the last of them are those that refuse
  split at h
  case h_1 | h_2 | h_3 | h_14 =>
      obtain rfl := Except.ok.inj h
      exact proper_of_no_table rfl rfl
  case h_4 =>
      obtain ⟨t, ht, h⟩ := bind_eq_ok.mp h
      obtain rfl : viewSchema t = c := Except.ok.inj h
      exact proper_of_table ht rfl rfl
  case h_5 =>
      obtain ⟨t, ht, h⟩ := bind_eq_ok.mp h
      obtain ⟨columns, hcolumns, h⟩ := bind_eq_ok.mp h
      obtain rfl : createTable t columns = c := Except.ok.inj h
      refine ⟨fun htable => ?_, fun hc => ?_⟩
      · obtain rfl := Option.some.inj htable
        exact TableName.proper_of_parse ht
      · obtain ⟨spec, hspec⟩ := exists_of_mem_mapM (reading_eq_ok.mp hcolumns) hc
        exact Column.notMem_of_parse hspec
  case h_6 =>
      obtain ⟨t, ht, h⟩ := bind_eq_ok.mp h
      exact proper_of_readAlter ht h
  case h_8 =>
      obtain ⟨t, ht, h⟩ := bind_eq_ok.mp h
      obtain ⟨fields, -, h⟩ := bind_eq_ok.mp h
      obtain rfl : insert t fields = c := Except.ok.inj h
      exact proper_of_table ht rfl rfl
  case h_9 =>
      obtain ⟨t, ht, h⟩ := bind_eq_ok.mp h
      obtain ⟨clause, -, h⟩ := bind_eq_ok.mp h
      obtain rfl : select t clause = c := Except.ok.inj h
      exact proper_of_table ht rfl rfl
  case h_10 =>
      obtain ⟨t, ht, h⟩ := bind_eq_ok.mp h
      exact proper_of_readUpdate ht h
  case h_11 =>
      obtain ⟨t, ht, h⟩ := bind_eq_ok.mp h
      obtain ⟨clause, -, h⟩ := bind_eq_ok.mp h
      obtain rfl : delete t clause = c := Except.ok.inj h
      exact proper_of_table ht rfl rfl
  case h_13 =>
      split at h
      · obtain ⟨t, ht, h⟩ := bind_eq_ok.mp h
        obtain rfl : dropTable t = c := Except.ok.inj h
        exact proper_of_table ht rfl rfl
      · cases h
  case h_7 | h_12 | h_15 => cases h

theorem proper_of_parse {line : String} {c : Command} (h : parse line = .ok c) : c.Proper := by
  obtain ⟨words, -, h⟩ := bind_eq_ok.mp h
  unfold ofWords at h
  split at h
  · cases h
  · split at h
    · exact proper_of_ofArguments h
    · cases h

end Command

end Tabular
