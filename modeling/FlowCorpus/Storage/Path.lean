import FlowCorpus.Text.Split

/-!
# Paths

A path is a root, which may be empty, and the names below it. Repeated slashes and single dots mean
nothing and are dropped; a double dot stays, since what it leads to depends on the files.
-/

set_option autoImplicit false

namespace FlowCorpus.Storage

open FlowCorpus.Text

/-- A path. A relative one has an empty root. -/
structure Path where
  root : String := ""
  names : List String := []
deriving DecidableEq, Repr, Inhabited

namespace Path

/-- The root of a path text: exactly two slashes in front are a root of their own. -/
def rootOf (s : List Char) : String :=
  match (s.takeWhile (· == '/')).length with
  | 0 => ""
  | 2 => "//"
  | _ => "/"

def namesOf (s : List Char) : List String :=
  ((split '/' s).map String.ofList).filter fun name => name != "" && name != "."

def ofText (s : String) : Path :=
  ⟨rootOf s.toList, namesOf s.toList⟩

/-- The text of a path; the empty path is a dot. -/
def text (path : Path) : String :=
  if path.root = "" && path.names.isEmpty then "."
  else path.root ++ "/".intercalate path.names

/-- The last name, empty when there is none. -/
def name (path : Path) : String :=
  path.names.getLastD ""

def parent (path : Path) : Path :=
  { path with names := path.names.dropLast }

/-- A path below another one; a path with a root replaces it. -/
def join (base path : Path) : Path :=
  if path.root = "" then { base with names := base.names ++ path.names } else path

def below (base : Path) (s : String) : Path :=
  base.join (ofText s)

def lastDot? (name : List Char) : Option Nat :=
  (name.reverse.idxOf? '.').map fun i => name.length - 1 - i

/-- A name cut before its last dot, unless that is its first or last character. -/
def splitName (name : String) : String × String :=
  match lastDot? name.toList with
  | some i =>
    if 0 < i && i + 1 < name.length then
      (String.ofList (name.toList.take i), String.ofList (name.toList.drop i))
    else (name, "")
  | none => (name, "")

def stem (path : Path) : String :=
  (splitName path.name).1

/-- The suffix of the last name with its dot, empty when there is none. -/
def suffix (path : Path) : String :=
  (splitName path.name).2

/-- The last name up to the first suffix that begins with the given mark. -/
def stemBefore (mark : String) (path : Path) : String :=
  String.ofList (cutAt mark.toList path.name.toList)

def hasNull (path : Path) : Bool :=
  path.names.any fun name => name.toList.contains '\x00'

def namesLe : List String → List String → Bool
  | [], _ => true
  | _ :: _, [] => false
  | a :: as, b :: bs => if a = b then namesLe as bs else decide (a < b)

def le (p q : Path) : Bool :=
  namesLe (p.root :: p.names) (q.root :: q.names)

def sorted (paths : List Path) : List Path :=
  paths.mergeSort le

end Path
end FlowCorpus.Storage
