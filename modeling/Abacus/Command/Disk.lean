import Abacus.Report

/-!
# Files and folders

A disk is a tree of files and folders, with one folder as the home of relative paths. A path is walked
name by name: an empty name and `.` stay, `..` goes up, and only a folder can be walked through. What
stands at its end is a folder, a file or a vacant place, where a file can be made.

A file is opened for writing first, which empties it or makes it, and written to later. Two writers of
one file both write from its beginning on.
-/

namespace Abacus

/-- Why a path cannot be opened. -/
inductive DiskCause where
  | missing
  | notFolder
  | isFolder
  /-- No path holds the character with the code zero. -/
  | zeroCharacter
deriving DecidableEq

/-- A path that cannot be opened. -/
structure DiskFault where
  cause : DiskCause
  path : String

namespace DiskFault

def report (fault : DiskFault) : Report :=
  match fault.cause with
  | .missing =>
    .host "FileNotFoundError" ("[Errno 2] No such file or directory: " ++ quoted fault.path)
  | .notFolder => .host "NotADirectoryError" ("[Errno 20] Not a directory: " ++ quoted fault.path)
  | .isFolder => .host "IsADirectoryError" ("[Errno 21] Is a directory: " ++ quoted fault.path)
  | .zeroCharacter => .host "ValueError" "embedded null byte"

end DiskFault

/-! ## Paths -/

/-- The names between the slashes of a path, the empty ones included. -/
def pathNames : List Char → List (List Char)
  | [] => [[]]
  | c :: rest =>
    if c = '/' then [] :: pathNames rest
    else
      match pathNames rest with
      | [] => [[c]]
      | name :: names => (c :: name) :: names

/-- The slashes that a path without needless ones begins with. Two are not the same as one, and more
than two are. -/
def pathRoot : List Char → String
  | '/' :: '/' :: '/' :: _ => "/"
  | '/' :: '/' :: _ => "//"
  | '/' :: _ => "/"
  | _ => ""

/-- A path without needless slashes and dots. -/
def tidyPath (path : String) : String :=
  let names := (pathNames path.toList).filter fun name => name != [] && name != ['.']
  let tidy := pathRoot path.toList ++ String.intercalate "/" (names.map String.ofList)
  if tidy.isEmpty then "." else tidy

/-! ## Disks -/

/-- What a place on a disk holds. -/
inductive Entry where
  | file (content : ByteArray)
  | folder

/-- Where a path leads. Places are given by the names from the root on. -/
inductive Spot where
  | folder (place : List String)
  | file (place : List String) (content : ByteArray)
  | vacant (place : List String)

/-- Files and folders. A folder that something stands in need not be listed. -/
structure Disk where
  /-- The folder in which relative paths begin. -/
  home : List String
  entries : List (List String × Entry)

namespace Disk

/-- What stands at a place. -/
def look (disk : Disk) (place : List String) : Spot :=
  match disk.entries.find? fun entry => entry.1 = place with
  | some (_, .file content) => .file place content
  | some (_, .folder) => .folder place
  | none =>
    if (disk.home :: disk.entries.map (·.1)).any place.isPrefixOf then .folder place
    else .vacant place

/-- Walks on by one name. -/
def walk (disk : Disk) (spot : Spot) (name : String) : Except DiskCause Spot :=
  match spot with
  | .folder place =>
    if name = "" ∨ name = "." then .ok (.folder place)
    else if name = ".." then .ok (.folder place.dropLast)
    else .ok (disk.look (place ++ [name]))
  | .file _ _ => .error .notFolder
  | .vacant place => if name = "" then .ok (.vacant place) else .error .missing

/-- Where a path leads. -/
def resolve (disk : Disk) (path : String) : Except DiskCause Spot :=
  let start := if path.toList.head? = some '/' then [] else disk.home
  if path.toList.contains '\x00' then .error .zeroCharacter
  else ((pathNames path.toList).map String.ofList).foldlM disk.walk (.folder start)

/-- Whether a path leads to a file or a folder. -/
def has (disk : Disk) (path : String) : Bool :=
  match disk.resolve path with
  | .ok (.vacant _) => false
  | .ok _ => true
  | .error _ => false

/-- The content of a file. -/
def read (disk : Disk) (path : String) : Except DiskFault ByteArray :=
  match disk.resolve path with
  | .ok (.file _ content) => .ok content
  | .ok (.folder _) => .error ⟨.isFolder, path⟩
  | .ok (.vacant _) => .error ⟨.missing, path⟩
  | .error cause => .error ⟨cause, path⟩

/-- Gives a place a content in a list of entries. -/
def putIn (place : List String) (content : ByteArray) :
    List (List String × Entry) → List (List String × Entry)
  | [] => [(place, .file content)]
  | entry :: entries =>
    if entry.1 = place then (place, .file content) :: entries
    else entry :: putIn place content entries

/-- Makes the file at a place hold a content. -/
def put (disk : Disk) (place : List String) (content : ByteArray) : Disk :=
  { disk with entries := putIn place content disk.entries }

/-- Opens a path for writing: the place of the file, which is empty afterwards. -/
def create (disk : Disk) (path : String) : Except DiskFault (List String × Disk) :=
  match disk.resolve path with
  | .ok (.file place _) => .ok (place, disk.put place ByteArray.empty)
  | .ok (.folder _) => .error ⟨.isFolder, path⟩
  | .ok (.vacant place) =>
    if path.toList.getLast? = some '/' then .error ⟨.isFolder, path⟩
    else .ok (place, disk.put place ByteArray.empty)
  | .error cause => .error ⟨cause, path⟩

/-- Writes to an open file from its beginning on. What it holds beyond that stays. -/
def store (disk : Disk) (place : List String) (content : ByteArray) : Disk :=
  match disk.look place with
  | .file _ old => disk.put place (content ++ old.extract content.size old.size)
  | _ => disk.put place content

/-- The files of one disk that another one does not have in this form. -/
def changes (old new : Disk) : List (List String × ByteArray) :=
  new.entries.filterMap fun (place, entry) =>
    match entry, old.look place with
    | .file content, .file _ before => if content.toList == before.toList then none else some (place, content)
    | .file content, _ => some (place, content)
    | .folder, _ => none

end Disk

end Abacus
