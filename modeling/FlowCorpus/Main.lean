import FlowCorpus.Cli.Program

/-!
# The program

The command line over the files of the system. What the command line leads to is read into a file
tree, the command runs on the tree, and what it has changed is written back and shown.
-/

set_option autoImplicit false

namespace FlowCorpus.Cli

open FlowCorpus.Config FlowCorpus.Storage

def pathText (location : Location) : String :=
  Path.text ⟨"/", location⟩

def readEntry? (location : Location) : IO (Option Entry) := do
  let place := System.mkFilePath [pathText location]
  if ← place.isDir then return some .directory
  else if ← place.pathExists then
    return some (.file (Content.ofBytes (← IO.FS.readBinFile place).toList))
  else return none

def readInto (tree : Tree) (location : Location) : IO Tree := do
  match ← readEntry? location with
  | some entry => return tree.set location entry
  | none => return tree

partial def readBelow (tree : Tree) (location : Location) : IO Tree := do
  let place := System.mkFilePath [pathText location]
  if ← place.isDir then
    (← place.readDir).foldlM (fun tree entry => do
      let location := location ++ [entry.fileName]
      readBelow (← readInto tree location) location) tree
  else return tree

def readPath (tree : Tree) (path : Path) : IO Tree := do
  let waypoints := tree.waypoints path
  readBelow (← waypoints.foldlM readInto tree) (waypoints.getLastD [])

def writeEntry : Location × Entry → IO Unit
  | (location, .directory) => IO.FS.createDirAll (pathText location)
  | (location, .file content) => IO.FS.writeBinFile (pathText location) ⟨content.bytes.toArray⟩

def environment : IO Environment := do
  let bytes ← IO.FS.readBinFile "/proc/self/environ"
  return Environment.ofTexts (((String.fromUTF8? bytes).getD "").splitOn "\x00")

/-- Shows what a session has to show. -/
def showSession (session : Session) : IO Unit := do
  for event in session.workspace.journal do
    (session.logging.line? event).forM fun line => IO.eprintln line
  for display in session.displays do
    for line in display.lines do
      if display.isProblem then IO.eprintln line else IO.println line
  IO.print session.output

/-- Runs a command line on the files of the system and returns its exit code. -/
def runOnSystem (words : List String) : IO UInt32 := do
  let env ← environment
  let home := Path.ofText ((env.lookup "HOME").getD "/")
  let surroundings : Surroundings := { env, directories := usualDirectories home }
  let start : Tree := { current := (Path.ofText (← IO.currentDir).toString).names }
  let tree ← (pathsOf surroundings words).foldlM readPath start
  let (ending, session) := (run surroundings words).run { tree }
  (tree.changedEntries session.workspace.tree).forM writeEntry
  showSession session
  (ending.stop.bind Stop.message?).forM fun message => IO.eprintln message
  return ending.exit.toUInt32

end FlowCorpus.Cli

def main (words : List String) : IO UInt32 :=
  FlowCorpus.Cli.runOnSystem words
