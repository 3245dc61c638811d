import Tabular.Shell.Basic

/-!
The files of a directory tree. A name that begins with a slash is followed from the root on, any
other from the working directory on, part by part. Directories that are missing on the way to a
file are made when the file is saved, unless they would lie in a directory that is closed. The file
is written at a place beside its own and then moved to it.
-/

namespace Tabular.Shell

/-- What a tree has at a place. -/
inductive Node
  | directory
  | file (content : List UInt8)
  deriving DecidableEq, Repr

/-- A directory tree. Places are given by the names from the root on. -/
structure Tree where
  /-- The place of the working directory. -/
  working : List String
  node : List String → Option Node
  /-- Whether nothing can be made in the directory of a place. -/
  closed : List String → Bool

/-- How far one comes in following a name. -/
inductive Walked
  | directory (place : List String)
  | file (place : List String) (content : List UInt8)
  /-- There is nothing of the next name, or a file is in the way. -/
  | lost
  deriving DecidableEq, Repr

namespace Tree

/-- Where the following of a name begins. -/
def origin (t : Tree) (name : String) : List String :=
  if name.startsWith "/" then [] else t.working

/-- Goes on by one part of a name. -/
def step (t : Tree) : Walked → String → Walked
  | .directory place, part =>
      if part = "" ∨ part = "." then .directory place
      else if part = ".." then .directory place.dropLast
      else match t.node (place ++ [part]) with
        | some .directory => .directory (place ++ [part])
        | some (.file content) => .file (place ++ [part]) content
        | none => .lost
  | .file .., _ | .lost, _ => .lost

/-- Follows a name to its end. -/
def walk (t : Tree) (name : String) : Walked :=
  (nameParts name).foldl t.step (.directory (t.origin name))

/-- What a name leads to. -/
def find (t : Tree) (name : String) : Place :=
  if name ≠ "" ∧ fits name then
    match t.walk name with
    | .directory _ => .unreadable
    | .file _ content => .file content
    | .lost => .nothing
  else .nothing

/-! ### Saving -/

/-- Goes on by one part of the name of a directory, and makes the directory if there is nothing of
that name. Carries the place reached and the places of the directories made. -/
def makeStep (t : Tree) (reached : List String × List (List String)) (part : String) :
    Option (List String × List (List String)) :=
  let (place, made) := reached
  if part = "" ∨ part = "." then some (place, made)
  else if part = ".." then some (place.dropLast, made)
  else match t.node (place ++ [part]) with
    | some .directory => some (place ++ [part], made)
    | some (.file _) => none
    | none => if t.closed place then none else some (place ++ [part], (place ++ [part]) :: made)

/-- Where a file is saved. -/
structure Target where
  file : List String
  /-- Where the file is written before it is moved to its place. -/
  temporary : List String
  /-- The directories that are made on the way. -/
  made : List (List String)
  deriving DecidableEq, Repr

/-- Where the file of a name is saved: the directory that it lies in is there or can be made, and then
neither the file nor its temporary file falls on a directory. -/
def target? (t : Tree) (name : String) : Option Target :=
  let parts := nameParts name
  match parts.dropLast.foldlM t.makeStep (t.origin name, []), parts.getLast? with
  | some (place, made), some last =>
      let free (place : List String) : Bool :=
        t.node place ≠ some .directory && !made.contains place
      let target : Target := ⟨place ++ [last], place ++ [stem last ++ ".tmp"], made⟩
      if canSave name && !t.closed place && free target.file && free target.temporary then
        some target
      else none
  | _, _ => none

/-- Whether a file can be saved under a name. -/
def accepts (t : Tree) (name : String) : Bool := (t.target? name).isSome

/-- Puts something at a place, or takes away what is there. -/
def set (t : Tree) (place : List String) (node : Option Node) : Tree :=
  { t with node := fun place' => if place' = place then node else t.node place' }

/-- Moves what is at one place to another. -/
def rename (t : Tree) (source target : List String) : Tree :=
  (t.set source none).set target (t.node source)

/-- Saves a file: makes the directories, writes the temporary file and moves it. -/
def save (t : Tree) (target : Target) (content : List UInt8) : Tree :=
  let made := target.made.foldr (fun place t => t.set place (some .directory)) t
  (made.set target.temporary (some (.file content))).rename target.temporary target.file

def toFiles (t : Tree) : Files where
  find := t.find
  accepts := t.accepts

/-- The tree after a run that has saved its snapshot under a name; `none` if it has not. -/
def after? (t : Tree) (name : String) (outcome : Outcome) : Option Tree := do
  return t.save (← t.target? name) (← outcome.written)

end Tree

end Tabular.Shell
