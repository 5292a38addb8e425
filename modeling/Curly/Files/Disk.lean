import Curly.Files.FilePath
import Curly.Text.Quoted

/-!
# The files there are

A disk is the files with their bytes, further directories, and the directory one stands in. Every
place above a file or a directory is a directory too. Some places may be barred: a barred directory
cannot be entered, and a barred file cannot be read.

There are no links: a place is reached along its own segments and in no other way. The disk does not
change while something is read or looked for on it.

To ask whether there is something at a path is to go along the path, which can fail: a segment or
the whole path may be longer than the system allows, and a directory on the way may be barred. That
nothing is there is no failure.
-/

namespace Curly

/-- The files, the directories that may be empty, the places that are barred, and where one stands;
all by the segments from the root. -/
structure Disk where
  here : List String
  files : List (List String × ByteArray)
  folders : List (List String)
  barred : List (List String) := []

/-- What a path leads to. -/
inductive DiskEntry where
  | file (bytes : ByteArray)
  | folder

/-- Why a path leads nowhere, or cannot be read as a file. -/
inductive AccessFault where
  | missing
  | notAFolder
  | isAFolder
  /-- The path, or a segment of it, is too long. -/
  | nameTooLong
  /-- A place on the way, or the file, is barred. -/
  | denied
  /-- The character NUL is in the path. -/
  | nulInside
deriving DecidableEq, Repr

/-- The wording of a fault about a path. -/
def AccessFault.message (path : String) (fault : AccessFault) : String :=
  match fault with
  | missing => "[Errno 2] No such file or directory: " ++ Text.quoted path
  | notAFolder => "[Errno 20] Not a directory: " ++ Text.quoted path
  | isAFolder => "[Errno 21] Is a directory: " ++ Text.quoted path
  | nameTooLong => "[Errno 36] File name too long: " ++ Text.quoted path
  | denied => "[Errno 13] Permission denied: " ++ Text.quoted path
  | nulInside => "embedded null byte"

/-- Whether a fault only says that there is nothing at the path. -/
def AccessFault.isAbsence : AccessFault → Bool
  | missing | notAFolder | nulInside => true
  | isAFolder | nameTooLong | denied => false

/-- The most bytes of a segment of a path. -/
def segmentLimit : Nat := 255

/-- The most bytes of a whole path. -/
def pathLimit : Nat := 4095

namespace Disk

/-- The bytes of the file at a place. -/
def fileAt? (d : Disk) (place : List String) : Option ByteArray := d.files.lookup place

/-- Whether a place is a directory. -/
def isFolderAt (d : Disk) (place : List String) : Bool :=
  place.isPrefixOf d.here || d.folders.any place.isPrefixOf ||
    d.files.any fun (file, _) => place ≠ file && place.isPrefixOf file

/-- What the segments lead to from a directory. Each but the last must be a directory, also
before a double dot, and it must be possible to enter it. -/
def walk (d : Disk) (place : List String) : List String → Except AccessFault DiskEntry
  | [] => .ok .folder
  | segment :: rest =>
    let next := FilePath.enter place segment
    if d.barred.contains place then .error .denied
    else if segmentLimit < segment.utf8ByteSize then .error .nameTooLong
    else if segment = ".." ∨ d.isFolderAt next then d.walk next rest
    else match d.fileAt? next with
      | none => .error .missing
      | some bytes => if rest = [] then .ok (.file bytes) else .error .notAFolder

/-- What a path leads to. -/
def find (d : Disk) (p : FilePath) : Except AccessFault DiskEntry :=
  if p.hasNul then .error .nulInside
  else if pathLimit < p.toText.utf8ByteSize then .error .nameTooLong
  else d.walk (if p.isAbsolute then [] else d.here) p.segments

/-- Whether something of a kind is at a path, as far as that can be told. -/
def isSuch (d : Disk) (p : FilePath) (kind : DiskEntry → Bool) : Except AccessFault Bool :=
  match d.find p with
  | .ok entry => .ok (kind entry)
  | .error fault => if fault.isAbsence then .ok false else .error fault

/-- Whether a path leads to something. -/
def leads (d : Disk) (p : FilePath) : Except AccessFault Bool := d.isSuch p fun _ => true

/-- Whether a path leads to a file. -/
def isFile (d : Disk) (p : FilePath) : Except AccessFault Bool :=
  d.isSuch p fun
    | .file _ => true
    | .folder => false

/-- The place that a path names, without regard to what there is. -/
def place (d : Disk) (p : FilePath) : List String :=
  FilePath.normalize (if p.isAbsolute then [] else d.here) p.segments

/-- The bytes of the file that a path leads to. -/
def readBytes (d : Disk) (p : FilePath) : Except AccessFault ByteArray := do
  match ← d.find p with
  | .file bytes => if d.barred.contains (d.place p) then throw .denied else return bytes
  | .folder => throw .isAFolder

/-- The bytes of the file that a path leads to, or what is said of a path that leads to none. -/
def contents (d : Disk) (p : FilePath) : Except String ByteArray :=
  (d.readBytes p).mapError fun fault => fault.message p.toText

/-- Puts a file at a place. -/
def write (d : Disk) (place : List String) (bytes : ByteArray) : Disk :=
  { d with files := (place, bytes) :: d.files.filter (·.1 ≠ place) }

/-- Takes the file at a place away; its directory stays. -/
def remove (d : Disk) (place : List String) : Disk :=
  { d with
    files := d.files.filter (·.1 ≠ place)
    folders := place.dropLast :: d.folders }

end Disk

end Curly
