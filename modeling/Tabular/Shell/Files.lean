/-!
The files that a run works with, by name. A name is a list of parts between slashes. Not every name
can be that of a file to save: the names of directories cannot, nor can names that are too long,
and a file is first written under a temporary name, which must be possible too.
-/

namespace Tabular.Shell

/-- What a name leads to. -/
inductive Place
  | nothing
  | file (content : List UInt8)
  /-- Something that cannot be read as a file, such as a directory. -/
  | unreadable
  deriving DecidableEq, Repr

def Place.content? : Place → Option (List UInt8)
  | file content => some content
  | _ => none

/-- The files of a run. -/
structure Files where
  /-- What a name leads to when the run begins. -/
  find : String → Place
  /-- Whether a file can be saved under a name that leads to a file or to nothing. -/
  accepts : String → Bool

/-! ### Names -/

/-- Cuts a text at each slash. -/
def partList : List Char → List (List Char)
  | [] => [[]]
  | c :: rest =>
      if c = '/' then [] :: partList rest
      else match partList rest with
        | [] => [[c]]
        | part :: parts => (c :: part) :: parts

/-- The parts of a name. -/
def nameParts (name : String) : List String := (partList name.toList).map String.ofList

/-- Whether a part names no entry of its directory but the directory itself or the one around
it. -/
def isDots (part : String) : Bool := part = "" || part = "." || part = ".."

/-- The directory that the file of a name lies in; empty for the working directory. -/
def directoryOf (name : String) : String := "/".intercalate (nameParts name).dropLast

/-- A part without its extension. A dot at the beginning begins no extension. -/
def stem (part : String) : String :=
  match part.toList.reverse.dropWhile (· ≠ '.') with
  | '.' :: c :: before => String.ofList (c :: before).reverse
  | _ => part

/-- The name of the file that is written before it takes the place of the file of a name. -/
def temporaryName (name : String) : String :=
  let parts := nameParts name
  "/".intercalate (parts.dropLast ++ (parts.getLast?.map fun last => stem last ++ ".tmp").toList)

/-- The number of bytes that one part of a name may have. -/
def maxPartSize : Nat := 255

/-- The number of bytes that a name may have. -/
def maxNameSize : Nat := 4095

/-- Whether a name and its parts are short enough to lead anywhere. -/
def fits (name : String) : Bool :=
  name.utf8ByteSize ≤ maxNameSize && (nameParts name).all (·.utf8ByteSize ≤ maxPartSize)

/-- Whether a part can be that of a file to save. If its stem is a single dot then nothing but two
dots comes before the extension, and there is no temporary name, since those are the name of a
directory. -/
def namesFile (part : String) : Bool := !isDots part && stem part != "."

/-- Whether a name can be that of a file to save. -/
def canSave (name : String) : Bool :=
  fits name && fits (temporaryName name) && (nameParts name).getLast?.any namesFile

end Tabular.Shell
