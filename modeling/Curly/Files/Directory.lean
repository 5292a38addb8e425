import Curly.Files.Disk
import Curly.Source
import Curly.Text.Decoding

/-!
# Directories of templates

A directory of templates finds the file of a name below its root, and nothing outside it. Slashes
before a name do not count. If there is no file of the name, the name with a suffix is tried,
unless it ends with the suffix already. The search fails where the disk cannot tell whether there is
a file, and at a name with the character NUL in it, wherever that name leads.
-/

namespace Curly

/-- A directory of templates: the place of its root, the suffix, and how the files are encoded. -/
structure Directory where
  root : List String
  suffix : String
  encoding : Text.Encoding
deriving Repr

namespace Directory

/-- The names to try for a name, in order. -/
def namesToTry (dir : Directory) (name : String) : List String :=
  let bare := name.toList.dropWhile (· = '/')
  if dir.suffix ≠ "" ∧ ¬ dir.suffix.toList.isSuffixOf bare then
    [String.ofList bare, String.ofList bare ++ dir.suffix]
  else [String.ofList bare]

/-- The path of a candidate, seen from the root. An empty name with a suffix that begins with a
slash gives a path of its own, wherever the root is. -/
def pathOf (dir : Directory) (candidate : String) : FilePath :=
  (FilePath.ofPlace dir.root).join (FilePath.ofText candidate)

/-- The place that a candidate names. -/
def placeOf (dir : Directory) (candidate : String) : List String :=
  let path := FilePath.ofText candidate
  FilePath.normalize (if path.isAbsolute then [] else dir.root) path.segments

/-- The first candidate that is a file. A candidate outside the root ends the search, with a
notice about the name. -/
def search (dir : Directory) (d : Disk) (name : String) :
    List String → List Notice × Except Failure (Option (List String))
  | [] => ([], .ok none)
  | candidate :: rest =>
    if (dir.pathOf candidate).hasNul then
      ([], .error (.noAccess (dir.pathOf candidate).toText .nulInside))
    else
      let place := dir.placeOf candidate
      if !dir.root.isPrefixOf place then ([.outsideRoot name], .ok none)
      else match d.isFile (.ofPlace place) with
        | .ok true => ([], .ok (some place))
        | .ok false => dir.search d name rest
        | .error fault => ([], .error (.noAccess (FilePath.placeText place) fault))

/-- The place of the file of a name. -/
def locate (dir : Directory) (d : Disk) (name : String) :
    List Notice × Except Failure (List String) :=
  let (notices, found) := dir.search d name (dir.namesToTry name)
  (notices, match found with
    | .ok (some place) => .ok place
    | .ok none => .error (.notFound name (some (FilePath.placeText dir.root)))
    | .error failure => .error failure)

/-- The text of the file of a name. -/
def read (dir : Directory) (d : Disk) (name : String) : List Notice × Except Failure String :=
  match dir.locate d name with
  | (notices, .error failure) => (notices, .error failure)
  | (notices, .ok place) =>
    (notices ++ [.reading name (FilePath.placeText place)],
      match d.contents (.ofPlace place) with
      | .error reason => .error (.unreadable name reason)
      | .ok bytes => match Text.read? dir.encoding bytes with
        | some text => .ok text
        | none => .error (.unreadable name (Text.undecodable dir.encoding)))

/-- The source of a directory of templates. -/
def source (dir : Directory) (d : Disk) (delivery : Delivery) : Source := ⟨delivery, dir.read d⟩

end Directory

end Curly
