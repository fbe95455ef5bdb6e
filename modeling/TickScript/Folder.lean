/-!
# Files in a folder

A path is followed from the working folder, one name after another. An empty name and `.`
stay in place, `..` goes up, and every other name is looked up, so each name but the last has
to be that of a folder. Of what lies outside the working folder only the folders above it are
known.
-/

namespace TickScript

/-- Why a path leads to no file. -/
inductive FileProblem where
  | notFound
  | notFolder
  | isFolder
  | nameTooLong
deriving DecidableEq, Repr

/-- The problem in the words of the operating system. -/
def FileProblem.text : FileProblem → String
  | .notFound => "No such file or directory (os error 2)"
  | .notFolder => "Not a directory (os error 20)"
  | .isFolder => "Is a directory (os error 21)"
  | .nameTooLong => "File name too long (os error 36)"

/-- The files at hand, by their paths. -/
abbrev Files := String → Except FileProblem (List UInt8)

/-- The files of a folder and of the folders in it, each with the names that lead to it. -/
structure Folder where
  files : List (List String × List UInt8)

namespace Folder

/-- The most bytes in a name. -/
def longestName : Nat := 255

/-- The most bytes in a path. -/
def longestPath : Nat := 4095

/-- The names in a path. -/
def names (path : String) : List String :=
  path.splitOn "/"

/-- Does a name stay in place? -/
def stays (name : String) : Bool :=
  name = "" || name = "."

/-- The folder that holds the given files. -/
def ofFiles (files : List (String × List UInt8)) : Folder :=
  ⟨files.map fun (path, bytes) => ((names path).filter (!stays ·), bytes)⟩

/-- Do the names lead to a folder? -/
def hasFolder (f : Folder) (place : List String) : Bool :=
  f.files.any fun (names, _) => place.isPrefixOf names && place != names

/-- Follows names from a place in the folder, or from outside of it. -/
def follow (f : Folder) : (place : Option (List String)) → List String →
    Except FileProblem (List UInt8)
  | _, [] => .error .isFolder
  | place, name :: rest =>
    if stays name then f.follow place rest
    else if name = ".." then
      f.follow (place.bind fun names => if names.isEmpty then none else some names.dropLast) rest
    else if longestName < name.utf8ByteSize then .error .nameTooLong
    else
      match place with
      | none => .error .notFound
      | some names =>
        let names := names ++ [name]
        match f.files.lookup names with
        | some bytes => if rest.isEmpty then .ok bytes else .error .notFolder
        | none => if f.hasFolder names then f.follow (some names) rest else .error .notFound

/-- The bytes of the file that a path leads to. -/
def read (f : Folder) : Files := fun path =>
  if path.isEmpty then .error .notFound
  else if longestPath < path.utf8ByteSize then .error .nameTooLong
  else f.follow (if path.startsWith "/" then none else some []) (names path)

end Folder

end TickScript
