import CallAtlas.Cli.Run
import CallAtlas.Json.Reader
import CallAtlas.Library.Standard
import CallAtlas.Source.Document

/-! # The program

Takes the directory tree in, runs the command line on it, and writes back what changed. The tree
of a source stands in a document beside it, whose name is that of the source with `.tree.json`
behind it. A database is written as the document of what it holds. -/

namespace CallAtlas.Program

/-- The sources seen so far and the tree of each of them. -/
structure Seen where
  files : Files
  trees : List (ByteArray × Tree)

/-- The tree in the document beside a source. -/
def treeBeside (path : String) : IO (Option Tree) := do
  let file := (← IO.currentDir) / (path ++ ".tree.json")
  if ← file.pathExists then return (Json.parse (← IO.FS.readFile file)).map Tree.ofJson
  else return none

/-- Takes in what stands at a path; what cannot be looked at is left out. -/
partial def takeIn (seen : Seen) (path : String) : IO Seen := do
  let place := (← IO.currentDir) / path
  let p := Path.ofText path
  if ← place.isDir then
    let files := (seen.files.makeDirectories p).1
    let mut seen := { seen with files := files }
    for entry in ← place.readDir do
      seen ← takeIn seen (path ++ "/" ++ entry.fileName)
    return seen
  else if ← place.pathExists then
    let data ← IO.FS.readBinFile place
    let files := (seen.files.after (seen.files.write p (.bytes data))).1
    match ← treeBeside path with
    | some t => return ⟨files, (data, t) :: seen.trees⟩
    | none => return { seen with files := files }
  else return seen

/-- Takes in what a save has to know of the place it writes to: the directory and the file. -/
def takeInOutput (seen : Seen) (p : Path) : IO Seen := do
  let cwd ← IO.currentDir
  let mut seen := seen
  if ← (cwd / p.parent.toText.shown).isDir then
    let files := (seen.files.makeDirectories p.parent).1
    seen := { seen with files := files }
  if ← (cwd / p.toText.shown).isDir then
    let files := (seen.files.makeDirectories p).1
    return { seen with files := files }
  else if ← (cwd / p.toText.shown).pathExists then
    let data ← IO.FS.readBinFile (cwd / p.toText.shown)
    return { seen with files := (seen.files.after (seen.files.write p (.bytes data))).1 }
  else return seen

/-- The bytes that a file is written with. -/
def bytesOf : FileContent → ByteArray
  | .bytes data => data
  | .database db => ((db.toSnapshot?.map Store.Document.render).getD "").toUTF8

/-- Whether an entry was already there with the same content. -/
def isKept (before : Files) (way : List Text) (content : FileContent) : Bool :=
  match before.entry? way, content with
  | some (.regular (.bytes old)), .bytes new => old.data == new.data
  | _, _ => false

/-- Writes what changed. -/
def writeBack (before after : Files) : IO Unit := do
  let cwd ← IO.currentDir
  for (way, entry) in after.entries.entries do
    let place := cwd / (Path.mk .root way).toText.shown
    match entry with
    | .directory => if (before.entry? way).isNone then IO.FS.createDirAll place
    | .regular c => if !isKept before way c then IO.FS.writeBinFile place (bytesOf c)
    | .device => pure ()

/-- What has to be taken in before arguments can be run. -/
def takeInFor (seen : Seen) (arguments : List Text) : IO Seen := do
  match Cli.read arguments with
  | .ok (.index s) =>
    let seen ← takeIn seen s.repo.toText.shown
    match s.output with
    | .path p => takeInOutput seen p
    | _ => return seen
  | _ => return seen

end CallAtlas.Program

open CallAtlas in
def main (arguments : List String) : IO UInt32 := do
  let cwd := Path.ofText (← IO.currentDir).toString
  let arguments := arguments.map Text.ofString
  let seen ← Program.takeInFor ⟨.empty cwd.parts, []⟩ arguments
  match @Cli.run .standard (.ofTrees seen.trees) seen.files arguments with
  | .error e =>
    IO.eprintln e.message.shown
    return 1
  | .ok o =>
    Program.writeBack seen.files o.files
    if o.exit = 0 then IO.println o.message.shown else IO.eprintln o.message.shown
    return UInt32.ofNat o.exit
