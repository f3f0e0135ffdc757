/-!
# The Working Directory

What a program sees of the files around it: some paths with what can be read there. Paths
are compared step by step, so that several of them may lead to one file. Making a directory
makes all directories on the way to it.
-/

namespace ShardQuery.Cli

/-- What is found at a path, as far as reading it as a text is concerned. -/
inductive Found where
  /-- Nothing. -/
  | nothing
  /-- Something that cannot be read as a text. -/
  | unreadable
  /-- A file with a text. -/
  | text (content : String)
deriving DecidableEq, Repr

/-- The text that is found, if one is. -/
def Found.text? : Found → Option String
  | .text content => some content
  | _ => none

/-! ### Paths -/

/-- The parts of a path between slashes, empty ones among them where slashes follow each other. -/
def pathParts (path : String) : List (List Char) :=
  path.toList.splitOn '/'

/-- One step further from a place. A step up from an unknown place is kept. -/
def takeStep (place : List (List Char)) (part : List Char) : List (List Char) :=
  if part = [] ∨ part = ['.'] then place
  else if part = ['.', '.'] then
    match place.getLast? with
    | none => [part]
    | some last =>
      if last = ['.', '.'] then place ++ [part]
      else if last = ['/'] then place
      else place.dropLast
  else place ++ [part]

/-- Where a path starts: at the root or in the working directory. -/
def pathStart (path : String) : List (List Char) :=
  if path.toList.head? = some '/' then [['/']] else []

/-- The place that a path leads to, with all steps to the same place and upwards taken. -/
def placeOf (path : String) : List (List Char) :=
  (pathParts path).foldl takeStep (pathStart path)

/-- The places on the way along a path. -/
def placesAlong (path : String) : List (List (List Char)) :=
  let parts := pathParts path
  (List.range (parts.length + 1)).map fun n => (parts.take n).foldl takeStep (pathStart path)

/-- The entry of the working directory that leads to a place, if one does. -/
def entryOf? : List (List Char) → Option String
  | [] => none
  | part :: _ => if part = ['/'] ∨ part = ['.', '.'] then none else some (String.ofList part)

/-! ### Files -/

/-- Paths with what is found there; everything else that exists is a directory on the way to one of
them. -/
structure Directory where
  /-- The paths, each of a file. -/
  files : List (String × Found)

namespace Directory

/-- Whether a place is a directory: where the program works, the root, or a place on the way
to a file. -/
def isDirectory (directory : Directory) (place : List (List Char)) : Bool :=
  place == [] || place == [['/']] || directory.files.any fun file =>
    place.isPrefixOf (placeOf file.1) && place != placeOf file.1

/-- What is found at a place: what the first file that leads there holds, a directory, which is no
text, or nothing. -/
def findPlace (directory : Directory) (place : List (List Char)) : Found :=
  match directory.files.find? fun file => placeOf file.1 == place with
  | some (_, found) => found
  | none => if directory.isDirectory place then .unreadable else .nothing

/-- What is found at a path. A path that is not listed itself may lead through directories
only. -/
def find (directory : Directory) (path : String) : Found :=
  match directory.files.find? (·.1 == path) with
  | some (_, found) => found
  | none =>
    if (placesAlong path).dropLast.all directory.isDirectory then
      directory.findPlace (placeOf path)
    else .nothing

/-- The entries of the working directory that are there, one for each file below it. -/
def entries (directory : Directory) : List String :=
  directory.files.filterMap fun file => entryOf? (placeOf file.1)

/-- The entries that are added by making a directory, in ascending order; none if there is a
file in its way. -/
def make? (directory : Directory) (path : String) : Option (List String) :=
  let places := placesAlong path
  if directory.files.any fun file => places.contains (placeOf file.1) then none
  else
    let added := (places.filterMap entryOf?).filter fun entry =>
      !directory.entries.contains entry
    some (added.eraseDups.mergeSort fun a b => (compare a b).isLE)

end Directory

end ShardQuery.Cli
