import FlowCorpus.Fault
import FlowCorpus.Storage.Path
import FlowCorpus.Text.Lines

/-!
# File trees

The files and directories that a program works on. A path is followed name by name: every name but
the last has to be a directory. Directories are made and files are written only below directories
that are there.
-/

set_option autoImplicit false

namespace FlowCorpus.Storage

open FlowCorpus.Text

/-- Where an entry is: the names that lead to it from the root, none of them a double dot. -/
abbrev Location := List String

/-- What a file holds: text, or bytes that are no text. -/
inductive Content where
  | text (s : String)
  | binary (bytes : List UInt8)
deriving DecidableEq, Repr

def Content.ofBytes (bytes : List UInt8) : Content :=
  match String.fromUTF8? ⟨bytes.toArray⟩ with
  | some s => .text s
  | none => .binary bytes

def Content.bytes : Content → List UInt8
  | .text s => s.toUTF8.data.toList
  | .binary bytes => bytes

/-- A file or a directory. -/
inductive Entry where
  | file (content : Content)
  | directory
deriving DecidableEq, Repr

def Entry.isFile : Entry → Bool
  | .file _ => true
  | .directory => false

def Entry.isDirectory : Entry → Bool
  | .file _ => false
  | .directory => true

/-- The entries below the root, and the working directory, which relative paths start from. -/
structure Tree where
  entries : List (Location × Entry) := []
  current : Location := []
deriving DecidableEq, Repr

namespace Tree

/-- The entry at a location; the working directory and all above it are directories. -/
def entry? (tree : Tree) (location : Location) : Option Entry :=
  if location.isPrefixOf tree.current then some .directory else tree.entries.lookup location

def setEntry (location : Location) (entry : Entry) :
    List (Location × Entry) → List (Location × Entry)
  | [] => [(location, entry)]
  | (l, e) :: rest =>
    if l = location then (location, entry) :: rest else (l, e) :: setEntry location entry rest

def set (tree : Tree) (location : Location) (entry : Entry) : Tree :=
  { tree with entries := setEntry location entry tree.entries }

def erase (tree : Tree) (location : Location) : Tree :=
  { tree with entries := tree.entries.filter fun e => e.1 != location }

def nameLimit : Nat := 255

def pathLimit : Nat := 4095

/-- The location that names lead to from a location. The last name may be missing there, but what
comes before it has to be a directory. A double dot leads up, at the root nowhere. -/
def follow (tree : Tree) : Location → List String → Except StoreFault Location
  | location, [] => .ok location
  | location, name :: rest =>
    match tree.entry? location with
    | none => .error .missing
    | some (.file _) => .error .notADirectory
    | some .directory =>
      if name = ".." then tree.follow location.dropLast rest
      else if nameLimit < name.utf8ByteSize then .error .nameTooLong
      else tree.follow (location ++ [name]) rest

def startOf (tree : Tree) (path : Path) : Location :=
  if path.root = "" then tree.current else []

def locate (tree : Tree) (path : Path) : Except Fault Location :=
  if path.hasNull then .error .nullInPath
  else if pathLimit < path.text.utf8ByteSize then .error (.store .nameTooLong path.text)
  else
    match tree.follow (tree.startOf path) path.names with
    | .ok location => .ok location
    | .error fault => .error (.store fault path.text)

/-- Whether a path leads to an entry of a kind. Only a name that is too long is a fault. -/
def test (tree : Tree) (kind : Entry → Bool) (path : Path) : Except Fault Bool :=
  match tree.locate path with
  | .ok location => .ok ((tree.entry? location).any kind)
  | .error (.store .nameTooLong p) => .error (.store .nameTooLong p)
  | .error _ => .ok false

def isFile (tree : Tree) (path : Path) : Except Fault Bool :=
  tree.test Entry.isFile path

def isDirectory (tree : Tree) (path : Path) : Except Fault Bool :=
  tree.test Entry.isDirectory path

def isPresent (tree : Tree) (path : Path) : Except Fault Bool :=
  tree.test (fun _ => true) path

/-- The text of the file at a path, every line end a line feed. -/
def readText (tree : Tree) (path : Path) : Except Fault String := do
  let location ← tree.locate path
  match tree.entry? location with
  | none => throw (.store .missing path.text)
  | some .directory => throw (.store .isADirectory path.text)
  | some (.file (.binary _)) => throw .notText
  | some (.file (.text s)) => return String.ofList (normalizeLineEnds s.toList)

def makeDirectory (tree : Tree) (path : Path) : Except Fault Tree := do
  let location ← tree.locate path
  match tree.entry? location with
  | some _ => throw (.store .exists path.text)
  | none => return tree.set location .directory

def ensureDirectory (tree : Tree) (path : Path) : Except Fault Tree :=
  match tree.makeDirectory path with
  | .ok tree => .ok tree
  | .error (.store fault p) =>
    match tree.isDirectory path with
    | .ok true => .ok tree
    | _ => .error (.store fault p)
  | .error fault => .error fault

/-- The tree with a directory at the path of some names, given from the last one up, and at all
paths above it; the directories made before a fault stay. -/
def ensureDirectories (root : String) (tree : Tree) : List String → Except Fault Unit × Tree
  | [] =>
    match tree.ensureDirectory ⟨root, []⟩ with
    | .ok tree => (.ok (), tree)
    | .error fault => (.error fault, tree)
  | name :: above =>
    let path : Path := ⟨root, (name :: above).reverse⟩
    let ensured (tree : Tree) : Except Fault Unit × Tree :=
      match tree.ensureDirectory path with
      | .ok tree => (.ok (), tree)
      | .error fault => (.error fault, tree)
    match tree.makeDirectory path with
    | .error (.store .missing _) =>
      match ensureDirectories root tree above with
      | (.ok (), tree) => ensured tree
      | (.error fault, tree) => (.error fault, tree)
    | _ => ensured tree

/-- The tree with a file at a path, which replaces the one that was there. -/
def writeContent (tree : Tree) (path : Path) (content : Content) : Except Fault Tree := do
  let location ← tree.locate path
  match tree.entry? location with
  | some .directory => throw (.store .isADirectory path.text)
  | _ => return tree.set location (.file content)

def removeFile (tree : Tree) (path : Path) : Except Fault Tree := do
  let location ← tree.locate path
  match tree.entry? location with
  | none => throw (.store .missing path.text)
  | some .directory => throw (.store .isADirectory path.text)
  | some (.file _) => return tree.erase location

def namesBelow? : Location → Location → Option (List String)
  | [], [] => none
  | [], names => some names
  | _ :: _, [] => none
  | a :: as, b :: bs => if a = b then namesBelow? as bs else none

/-- The files below a directory, or right in it, in the order of their paths; there are none below
anything else. Only a name that is too long is a fault. -/
def filesBelow (tree : Tree) (path : Path) (deep : Bool) : Except Fault (List Path) := do
  if ← tree.isDirectory path then
    let location ← tree.locate path
    return Path.sorted (tree.entries.filterMap fun (l, e) =>
      match namesBelow? location l, e with
      | some names, .file _ =>
        if deep || names.length == 1 then some { path with names := path.names ++ names }
        else none
      | _, _ => none)
  else return []

/-- The files below the working directory with the texts of their paths, in the order of these
texts. -/
def files (tree : Tree) : List (String × Content) :=
  (tree.entries.filterMap fun (l, e) =>
    match namesBelow? tree.current l, e with
    | some names, .file content => some (Path.text ⟨"", names⟩, content)
    | _, _ => none).mergeSort fun a b => a.1 ≤ b.1

/-- The locations that a path goes through, the last of them being its own. -/
def waypoints (tree : Tree) (path : Path) : List Location :=
  (path.names.foldl (fun (location, passed) name =>
    let next := if name = ".." then location.dropLast else location ++ [name]
    (next, passed ++ [next])) (tree.startOf path, [tree.startOf path])).2

/-- The entries of a later tree that an earlier one does not have like that. -/
def changedEntries (earlier later : Tree) : List (Location × Entry) :=
  later.entries.filter fun (location, entry) => earlier.entry? location != some entry

/-- The files of a later tree that an earlier one does not have, or has with another content. -/
def changes (earlier later : Tree) : List (String × Content) :=
  later.files.filter fun file => !earlier.files.contains file

end Tree
end FlowCorpus.Storage
