import Tabular.Text.Basic

/-!
Qualified table names `namespace.table`, cut at the first dot. `ofText?_eq_some_iff` says which
texts are such names.
-/

namespace Tabular

/-- The name of a table within a namespace. -/
structure TableName where
  ns : String
  table : String
  deriving DecidableEq, Repr

/-- The two parts of a qualified name. -/
inductive NamePart
  | ns
  | table
  deriving DecidableEq, Repr

def NamePart.label : NamePart → String
  | ns => "namespace"
  | table => "table"

/-- Why a part of a name is refused. -/
inductive NameFault
  /-- It has more characters than a name may have. -/
  | tooLong
  /-- It has a brace, which would end the tag of the table's keys. -/
  | brace
  /-- It is no name of a namespace: empty, or with a dot. -/
  | emptyOrDotted
  deriving DecidableEq, Repr

/-- The greatest number of characters in a part of a name. -/
def maxNameLength : Nat := 64

/-- What is wrong with a part of a name, if anything. -/
def nameFault? (s : String) : Option NameFault :=
  if s.length > maxNameLength then some .tooLong
  else if s.toList.any (fun c => c = '\x7b' || c = '\x7d') then some .brace
  else none

namespace TableName

/-- Both parts with the dot between them. -/
def full (t : TableName) : String := t.ns ++ "." ++ t.table

/-- The name that a text writes out: both parts are non-empty, the second may have dots. -/
def ofText? (s : String) : Option TableName :=
  match Text.cut? '.' s with
  | some (ns, table) => if ns = "" ∨ table = "" then none else some ⟨ns, table⟩
  | none => none

theorem ofText?_eq_some_iff {s : String} {t : TableName} :
    ofText? s = some t ↔ '.' ∉ t.ns.toList ∧ t.ns ≠ "" ∧ t.table ≠ "" ∧ s = t.full := by
  have hfull : s = t.full ↔ s.toList = t.ns.toList ++ '.' :: t.table.toList := by
    rw [← String.toList_inj, full]; simp
  rw [hfull, ofText?]
  cases hcut : Text.cut? '.' s with
  | none =>
      refine iff_of_false (by simp) fun h => ?_
      simp [Text.cut?_eq_some_iff.mpr ⟨h.1, h.2.2.2⟩] at hcut
  | some halves =>
      obtain ⟨ns, table⟩ := halves
      obtain ⟨hns, hs⟩ := Text.cut?_eq_some_iff.mp hcut
      have hiff : s.toList = t.ns.toList ++ '.' :: t.table.toList ∧ '.' ∉ t.ns.toList ↔
          t = ⟨ns, table⟩ := by
        constructor
        · intro h
          have := Text.cut?_eq_some_iff.mpr ⟨h.2, h.1⟩
          rw [hcut] at this
          cases t
          simp_all
        · rintro rfl
          exact ⟨hs, hns⟩
      have hsplit : ('.' ∉ t.ns.toList ∧ t.ns ≠ "" ∧ t.table ≠ "" ∧
          s.toList = t.ns.toList ++ '.' :: t.table.toList) ↔
          t = ⟨ns, table⟩ ∧ t.ns ≠ "" ∧ t.table ≠ "" := by
        rw [← hiff]; grind
      rw [hsplit]
      by_cases he : ns = "" ∨ table = ""
      · simp only [he, if_true, reduceCtorEq, false_iff]
        rintro ⟨rfl, h⟩
        exact he.elim h.1 h.2
      · simp only [he, if_false, Option.some.injEq]
        constructor
        · rintro rfl
          exact ⟨rfl, not_or.mp he⟩
        · exact fun h => h.1.symm

/-- The first part with a fault, and the fault. -/
def fault? (t : TableName) : Option (NamePart × String × NameFault) :=
  ((nameFault? t.ns).map fun f => (.ns, t.ns, f)) <|>
    ((nameFault? t.table).map fun f => (.table, t.table, f))

/-- Alphabetical by namespace, then by table. -/
def le (a b : TableName) : Bool := a.ns < b.ns || a.ns = b.ns && a.table ≤ b.table

end TableName

end Tabular
