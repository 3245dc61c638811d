import Tabular.Shell.Tree

/-!
Saving a file in a directory tree. After it the name of the file leads to what was saved
(`find_save`) and a file can be saved there again (`accepts_save`). Any other name that led to a file
leads to it still, unless the file was the one replaced or lay where the temporary file is written
(`find_save_of_walk`).
-/

namespace Tabular.Shell.Tree

variable {t t' : Tree} {name : String} {target : Target} {content : List UInt8}
variable {parts : List String} {part : String} {place place' found : List String}
variable {made made' : List (List String)}

/-! ### Following a name -/

theorem foldl_step_lost (parts : List String) : parts.foldl t.step .lost = .lost := by
  induction parts with
  | nil => rfl
  | cons part rest ih => exact ih

theorem step_same (h : part = "" ∨ part = ".") :
    t.step (.directory place) part = .directory place := if_pos h

theorem step_up : t.step (.directory place) ".." = .directory place.dropLast := rfl

theorem step_down (h : isDots part = false) :
    t.step (.directory place) part =
      match t.node (place ++ [part]) with
      | some .directory => .directory (place ++ [part])
      | some (.file content) => .file (place ++ [part]) content
      | none => .lost := by
  simp only [isDots, Bool.or_eq_false_iff, decide_eq_false_iff_not] at h
  obtain ⟨⟨hempty, hdot⟩, hup⟩ := h
  exact (if_neg (not_or.mpr ⟨hempty, hdot⟩)).trans (if_neg hup)

/-- A part stays in the directory, goes up or goes down. -/
theorem dots_cases (part : String) :
    (part = "" ∨ part = ".") ∨ part = ".." ∨ isDots part = false := by
  simp only [isDots, Bool.or_eq_false_iff, decide_eq_false_iff_not]
  by_cases hempty : part = "" <;> by_cases hdot : part = "." <;> by_cases hup : part = ".." <;>
    simp [hempty, hdot, hup]

/-- A name that leads to a file leads through directories, so it does so in every tree that has them
and the file. -/
theorem foldl_step_of_file (h : parts.foldl t.step (.directory place) = .file found content)
    (t' : Tree) : t.node found = some (.file content) ∧
      ((∀ at_, t.node at_ = some .directory → t'.node at_ = some .directory) →
        t'.node found = some (.file content) →
          parts.foldl t'.step (.directory place) = .file found content) := by
  induction parts generalizing place with
  | nil => cases h
  | cons part rest ih =>
      rw [List.foldl_cons] at h ⊢
      rcases dots_cases part with hsame | rfl | hdown
      · rw [step_same hsame] at h ⊢
        exact ih h
      · rw [step_up] at h ⊢
        exact ih h
      · rw [step_down hdown] at h ⊢
        cases hnode : t.node (place ++ [part]) with
        | none =>
            rw [hnode] at h
            cases (foldl_step_lost rest).symm.trans h
        | some node =>
            rw [hnode] at h
            cases node with
            | directory =>
                obtain ⟨hfile, hgo⟩ := ih h
                refine ⟨hfile, fun hdirectory hfound => ?_⟩
                rw [hdirectory _ hnode]
                exact hgo hdirectory hfound
            | file content' =>
                cases rest with
                | nil =>
                    cases h
                    refine ⟨hnode, fun _ hfound => ?_⟩
                    rw [hfound]
                    rfl
                | cons part' rest => cases (foldl_step_lost rest).symm.trans h

/-- A name under which a file is found has been followed to it. -/
theorem exists_walk_of_find (h : t.find name = .file content) :
    ∃ place, t.walk name = .file place content := by
  unfold find at h
  split at h
  · split at h
    · cases h
    · next place content' hwalk =>
        obtain rfl := Place.file.inj h
        exact ⟨place, hwalk⟩
    · cases h
  · cases h

/-! ### Making directories -/

theorem makeStep_same (h : part = "" ∨ part = ".") :
    t.makeStep (place, made) part = some (place, made) := if_pos h

theorem makeStep_up : t.makeStep (place, made) ".." = some (place.dropLast, made) := rfl

theorem makeStep_down (h : isDots part = false) :
    t.makeStep (place, made) part =
      match t.node (place ++ [part]) with
      | some .directory => some (place ++ [part], made)
      | some (.file _) => none
      | none =>
          if t.closed place then none else some (place ++ [part], (place ++ [part]) :: made) := by
  simp only [isDots, Bool.or_eq_false_iff, decide_eq_false_iff_not] at h
  obtain ⟨⟨hempty, hdot⟩, hup⟩ := h
  exact (if_neg (not_or.mpr ⟨hempty, hdot⟩)).trans (if_neg hup)

/-- A step down comes to a directory, or makes it where nothing is. -/
theorem makeStep_down_cases (hdown : isDots part = false)
    (h : t.makeStep (place, made) part = some (place', made')) :
    place' = place ++ [part] ∧
      (t.node (place ++ [part]) = some .directory ∧ made' = made ∨
        t.node (place ++ [part]) = none ∧ made' = (place ++ [part]) :: made) := by
  rw [makeStep_down hdown] at h
  split at h
  · next hnode =>
      cases h
      exact ⟨rfl, Or.inl ⟨hnode, rfl⟩⟩
  · cases h
  · next hnone =>
      split at h
      · cases h
      · cases h
        exact ⟨rfl, Or.inr ⟨hnone, rfl⟩⟩

/-- A step makes at most the directory that it comes to, and only where nothing is. -/
theorem mem_made_of_makeStep (h : t.makeStep (place, made) part = some (place', made'))
    (at_ : List String) :
    (at_ ∈ made → at_ ∈ made') ∧ (at_ ∈ made' → at_ ∈ made ∨ t.node at_ = none) := by
  rcases dots_cases part with hsame | rfl | hdown
  · rw [makeStep_same hsame] at h
    cases h
    exact ⟨id, Or.inl⟩
  · rw [makeStep_up] at h
    cases h
    exact ⟨id, Or.inl⟩
  · obtain ⟨-, ⟨-, rfl⟩ | ⟨hnone, rfl⟩⟩ := makeStep_down_cases hdown h
    · exact ⟨id, Or.inl⟩
    · refine ⟨List.mem_cons_of_mem _, fun hmem => ?_⟩
      rcases List.mem_cons.mp hmem with rfl | hmem
      · exact Or.inr hnone
      · exact Or.inl hmem

/-- With the directories made a step goes the same way, and makes none. -/
theorem step_of_makeStep (h : t.makeStep (place, made) part = some (place', made'))
    (hthere : ∀ at_, t.node at_ = some .directory ∨ at_ ∈ made' → t'.node at_ = some .directory)
    (made'' : List (List String)) :
    t'.step (.directory place) part = .directory place' ∧
      t'.makeStep (place, made'') part = some (place', made'') := by
  rcases dots_cases part with hsame | rfl | hdown
  · rw [makeStep_same hsame] at h
    cases h
    exact ⟨step_same hsame, makeStep_same hsame⟩
  · rw [makeStep_up] at h
    cases h
    exact ⟨step_up, makeStep_up⟩
  · obtain ⟨rfl, hcome⟩ := makeStep_down_cases hdown h
    have hnode : t'.node (place ++ [part]) = some .directory := by
      apply hthere
      rcases hcome with ⟨hnode, -⟩ | ⟨-, rfl⟩
      · exact Or.inl hnode
      · exact Or.inr (List.mem_cons_self ..)
    rw [step_down hdown, makeStep_down hdown, hnode]
    exact ⟨rfl, rfl⟩

/-- The parts of the name of a directory make directories only where nothing is. -/
theorem mem_made_of_foldlM (h : parts.foldlM t.makeStep (place, made) = some (place', made'))
    {at_ : List String} :
    (at_ ∈ made → at_ ∈ made') ∧ (at_ ∈ made' → at_ ∈ made ∨ t.node at_ = none) := by
  induction parts generalizing place made with
  | nil =>
      cases h
      exact ⟨id, Or.inl⟩
  | cons part rest ih =>
      rw [List.foldlM_cons] at h
      obtain ⟨⟨place₁, made₁⟩, hstep, hrest⟩ := Option.bind_eq_some_iff.mp h
      obtain ⟨hkept, hnew⟩ := mem_made_of_makeStep hstep at_
      refine ⟨fun hmem => (ih hrest).1 (hkept hmem), fun hmem => ?_⟩
      rcases (ih hrest).2 hmem with hmem | hnone
      · exact hnew hmem
      · exact Or.inr hnone

/-- With the directories made the name of a directory leads to it. -/
theorem foldl_step_of_foldlM (h : parts.foldlM t.makeStep (place, made) = some (place', made'))
    (hthere : ∀ at_, t.node at_ = some .directory ∨ at_ ∈ made' → t'.node at_ = some .directory) :
    parts.foldl t'.step (.directory place) = .directory place' ∧
      parts.foldlM t'.makeStep (place, []) = some (place', []) := by
  induction parts generalizing place made with
  | nil =>
      cases h
      exact ⟨rfl, rfl⟩
  | cons part rest ih =>
      rw [List.foldlM_cons] at h
      obtain ⟨⟨place₁, made₁⟩, hstep, hrest⟩ := Option.bind_eq_some_iff.mp h
      obtain ⟨hfollow, hmake⟩ := ih hrest
      obtain ⟨hfirst, hfirst'⟩ := step_of_makeStep hstep
        (fun at_ h => hthere at_ (h.imp_right (mem_made_of_foldlM hrest).1)) []
      constructor
      · rw [List.foldl_cons, hfirst]
        exact hfollow
      · rw [List.foldlM_cons, hfirst']
        exact hmake

/-! ### Saving -/

/-- What a place that a file can be saved at has to do with its name. -/
theorem target?_eq_some (h : t.target? name = some target) :
    ∃ place last, (nameParts name).dropLast.foldlM t.makeStep (t.origin name, []) =
        some (place, target.made) ∧ (nameParts name).getLast? = some last ∧
      target.file = place ++ [last] ∧ target.temporary = place ++ [stem last ++ ".tmp"] ∧
      canSave name = true ∧ t.closed place = false ∧
      (t.node target.file ≠ some .directory ∧ target.file ∉ target.made) ∧
      (t.node target.temporary ≠ some .directory ∧ target.temporary ∉ target.made) := by
  unfold target? at h
  dsimp only at h
  split at h
  · next place made last hfold hlast =>
      split at h
      · next hfree =>
          cases h
          simp only [Bool.and_eq_true, Bool.not_eq_true', decide_eq_true_eq,
            List.contains_eq_mem, decide_eq_false_iff_not] at hfree
          obtain ⟨⟨⟨hsave, hclosed⟩, hfile⟩, htemporary⟩ := hfree
          exact ⟨place, last, hfold, hlast, rfl, rfl, hsave, hclosed, hfile, htemporary⟩
      · cases h
  · cases h

theorem foldr_set_eq (made : List (List String)) :
    made.foldr (fun place t => t.set place (some .directory)) t =
      { t with node := fun at_ => if at_ ∈ made then some .directory else t.node at_ } := by
  induction made with
  | nil => rfl
  | cons place rest ih =>
      rw [List.foldr_cons, ih, set]
      congr 1
      funext at_
      by_cases h : at_ = place
      · rw [if_pos h, if_pos (List.mem_cons.mpr (Or.inl h))]
      · rw [if_neg h]
        simp only [List.mem_cons, or_iff_right h]

/-- The file is at its place, nothing is where it was written first, and the directories are made. -/
theorem save_eq : t.save target content =
    { t with
      node := fun at_ =>
        if at_ = target.file then some (.file content)
        else if at_ = target.temporary then none
        else if at_ ∈ target.made then some .directory
        else t.node at_ } := by
  rw [save, foldr_set_eq, rename, set, set, set]
  congr 1
  funext at_
  by_cases h : at_ = target.temporary
  · simp only [if_pos h, if_true]
  · simp only [if_neg h, if_true]

theorem node_save (at_ : List String) : (t.save target content).node at_ =
    if at_ = target.file then some (.file content)
    else if at_ = target.temporary then none
    else if at_ ∈ target.made then some .directory
    else t.node at_ := by
  rw [save_eq]

theorem closed_save : (t.save target content).closed = t.closed := by
  rw [save_eq]

theorem origin_save (name : String) : (t.save target content).origin name = t.origin name := by
  rw [save_eq]
  rfl

section
variable (h : t.target? name = some target)
include h

/-- Saving replaces no directory, and takes away no file but those at the two places. -/
theorem node_save_of_node {node : Node} {at_ : List String} (hnode : t.node at_ = some node)
    (hplace : node = .directory ∨ at_ ≠ target.file ∧ at_ ≠ target.temporary) :
    (t.save target content).node at_ = some node := by
  obtain ⟨_, _, hfold, -, -, -, -, -, ⟨hfile, -⟩, htemporary, -⟩ := target?_eq_some h
  have hne : at_ ≠ target.file ∧ at_ ≠ target.temporary := by
    rcases hplace with rfl | hne
    · exact ⟨fun heq => hfile (heq ▸ hnode), fun heq => htemporary (heq ▸ hnode)⟩
    · exact hne
  have hmade : at_ ∉ target.made := by
    intro hmem
    rcases (mem_made_of_foldlM hfold).2 hmem with hmem | hnone
    · cases hmem
    · cases hnode.symm.trans hnone
  rw [node_save, if_neg hne.1, if_neg hne.2, if_neg hmade, hnode]

/-- After saving the directory of the file is there. -/
theorem foldl_step_save {place : List String}
    (hfold : (nameParts name).dropLast.foldlM t.makeStep (t.origin name, []) =
      some (place, target.made)) (content : List UInt8) :
    (nameParts name).dropLast.foldl (t.save target content).step (.directory (t.origin name)) =
        .directory place ∧
      (nameParts name).dropLast.foldlM (t.save target content).makeStep (t.origin name, []) =
        some (place, []) := by
  obtain ⟨-, -, -, -, -, -, -, -, ⟨-, hfile⟩, -, htemporary⟩ := target?_eq_some h
  refine foldl_step_of_foldlM hfold fun at_ hthere => ?_
  rcases hthere with hnode | hmem
  · exact node_save_of_node h hnode (Or.inl rfl)
  · have hne : at_ ≠ target.file := fun heq => hfile (heq ▸ hmem)
    have hne' : at_ ≠ target.temporary := fun heq => htemporary (heq ▸ hmem)
    rw [node_save, if_neg hne, if_neg hne', if_pos hmem]

/-- The name leads to what was saved. -/
theorem find_save : (t.save target content).find name = .file content := by
  obtain ⟨place, last, hfold, hlast, hfile, -, hsave, -⟩ := target?_eq_some h
  have hfollow := (foldl_step_save h hfold content).1
  simp only [canSave, Bool.and_eq_true, hlast, Option.any_some, namesFile,
    Bool.not_eq_true'] at hsave
  obtain ⟨⟨hfits, -⟩, hname, -⟩ := hsave
  have hempty : name ≠ "" := by
    rintro rfl
    obtain rfl : "" = last := Option.some.inj hlast
    cases hname
  have hnode : (t.save target content).node (place ++ [last]) = some (.file content) := by
    rw [node_save, ← hfile, if_pos rfl]
  obtain ⟨before, hparts⟩ := List.getLast?_eq_some_iff.mp hlast
  rw [hparts, List.dropLast_concat] at hfollow
  have hwalk : (t.save target content).walk name = .file (place ++ [last]) content := by
    rw [walk, origin_save, hparts, List.foldl_append, hfollow, List.foldl_cons, List.foldl_nil,
      step_down hname, hnode]
  rw [find, if_pos ⟨hempty, hfits⟩, hwalk]

/-- A file can be saved there again. -/
theorem accepts_save : (t.save target content).accepts name = true := by
  obtain ⟨place, last, hfold, hlast, hfile, htemporary, hsave, hclosed, -⟩ := target?_eq_some h
  have hmake := (foldl_step_save h hfold content).2
  have hnode : (t.save target content).node (place ++ [last]) ≠ some .directory := by
    rw [node_save, ← hfile, if_pos rfl]
    exact nofun
  have hnode' : (t.save target content).node (place ++ [stem last ++ ".tmp"]) ≠ some .directory := by
    rw [node_save, ← htemporary]
    split
    · exact nofun
    · rw [if_pos rfl]
      exact nofun
  unfold accepts target?
  simp only [origin_save, hmake, hlast, closed_save, hclosed, hsave, decide_eq_true hnode,
    decide_eq_true hnode']
  rfl

/-- Another name that led to a file leads to it still. -/
theorem find_save_of_walk {other : String} {found : List String} {content' : List UInt8}
    (hwalk : t.walk other = .file found content') (hfile : found ≠ target.file)
    (htemporary : found ≠ target.temporary) :
    (t.save target content).find other = t.find other := by
  obtain ⟨hnode, hgo⟩ := foldl_step_of_file hwalk (t.save target content)
  have hwalk' : (t.save target content).walk other = .file found content' := by
    rw [walk, origin_save]
    refine hgo (fun at_ hdirectory => node_save_of_node h hdirectory (Or.inl rfl)) ?_
    exact node_save_of_node h hnode (Or.inr ⟨hfile, htemporary⟩)
  rw [find, find, hwalk, hwalk']

end

end Tabular.Shell.Tree
