import CallAtlas.OrderedMap
import CallAtlas.Path
import CallAtlas.Store.Database

/-! # Files and directories

A tree of directories and files as a table from the names on the way to what stands there. Paths
are followed through real directories, so `..` works only behind one. There are no links. -/

namespace CallAtlas

/-- What a regular file holds: bytes, or the tables of a database. -/
inductive FileContent where
  | bytes (data : ByteArray)
  | database (db : Store.Database)

/-- What stands at a place of the tree. -/
inductive FileEntry where
  | directory
  | regular (content : FileContent)
  | device

/-- Why a path cannot be used. -/
inductive FileError where
  | notFound
  | notADirectory
  | isADirectory
  | alreadyExists
  /-- A NUL character stands in the path. -/
  | nullInName
  /-- Half of a pair stands in the path. -/
  | halfInName
  deriving DecidableEq, Repr

/-- Directories and files, with the directory that relative paths start at. -/
structure Files where
  cwd : List Text
  entries : OrderedMap (List Text) FileEntry

namespace Files

/-- The tree with nothing but a working directory and one device. -/
def empty (cwd : List Text) : Files :=
  let ways := (List.range cwd.length).map fun n => cwd.take (n + 1)
  let devices : List Text := ["dev"]
  let entries := (ways ++ [devices]).foldl (fun m w => m.insert w .directory) OrderedMap.empty
  ⟨cwd, entries.insert (["dev", "null"] : List Text) .device⟩

/-- The working directory as a path. -/
def cwdPath (fs : Files) : Path := ⟨.root, fs.cwd⟩

/-- What stands at a way from the root. -/
def entry? (fs : Files) (way : List Text) : Option FileEntry :=
  if way.isEmpty then some .directory else fs.entries.get? way

/-- Refuses paths that no file can have. -/
def checkNames (p : Path) : Except FileError Unit :=
  if p.hasHalf then .error .halfInName
  else if p.hasNull then .error .nullInName
  else .ok ()

/-- Follows names from a way; all but the last have to lead to directories. -/
def follow (fs : Files) (way : List Text) : List Text → Except FileError (List Text)
  | [] => .ok way
  | name :: rest => match fs.entry? way with
    | none => .error .notFound
    | some .directory => fs.follow (if name = ".." then way.dropLast else way ++ [name]) rest
    | some _ => .error .notADirectory

/-- The way from the root to what a path names. -/
def locate (fs : Files) (p : Path) : Except FileError (List Text) := do
  checkNames p
  fs.follow (if p.isAbsolute then [] else fs.cwd) p.parts

/-- What stands at a path. -/
def at? (fs : Files) (p : Path) : Option FileEntry :=
  match fs.locate p with
  | .ok way => fs.entry? way
  | .error _ => none

def pathExists (fs : Files) (p : Path) : Bool := (fs.at? p).isSome

def isDirectory (fs : Files) (p : Path) : Bool :=
  match fs.at? p with
  | some .directory => true
  | _ => false

def isRegular (fs : Files) (p : Path) : Bool :=
  match fs.at? p with
  | some (.regular _) => true
  | _ => false

/-- The content of the regular file at a path. -/
def read (fs : Files) (p : Path) : Except FileError FileContent :=
  match fs.locate p with
  | .error e => .error e
  | .ok way => match fs.entry? way with
    | none => .error .notFound
    | some .directory => .error .isADirectory
    | some .device => .ok (.bytes .empty)
    | some (.regular c) => .ok c

/-- Sets the content of the file at a path, whose directory has to be there. -/
def write (fs : Files) (p : Path) (c : FileContent) : Except FileError Files :=
  match fs.locate p with
  | .error e => .error e
  | .ok way => match fs.entry? way, fs.entry? way.dropLast with
    | some .directory, _ => .error .isADirectory
    | some .device, _ => .ok fs
    | _, some .directory => .ok { fs with entries := fs.entries.insert way (.regular c) }
    | _, none => .error .notFound
    | _, _ => .error .notADirectory

/-- Removes the file at a path. -/
def remove (fs : Files) (p : Path) : Except FileError Files :=
  match fs.locate p with
  | .error e => .error e
  | .ok way => match fs.entry? way with
    | none => .error .notFound
    | some .directory => .error .isADirectory
    | some _ => .ok { fs with entries := fs.entries.erase way }

/-- What an attempt leads to: a failed one leaves the files as they are. -/
def after (fs : Files) : Except FileError Files → Files × Option FileError
  | .ok fs => (fs, none)
  | .error e => (fs, some e)

/-- Makes the directories that are missing along names from a directory. What stands in the way is
found to exist when its own directory is to be made: at the end, or behind one that was missing.
Otherwise it is found to be no directory when the last one is to be made. -/
def makeAlong (fs : Files) (way : List Text) (missed : Bool) :
    List Text → Files × Option FileError
  | [] => (fs, none)
  | name :: rest =>
    let next := if name = ".." then way.dropLast else way ++ [name]
    match fs.entry? next with
    | none => makeAlong { fs with entries := fs.entries.insert next .directory } next true rest
    | some .directory => makeAlong fs next missed rest
    | some _ => (fs, some (if missed || rest.isEmpty then .alreadyExists else .notADirectory))

/-- Makes the directory at a path and all above it that are missing. Those made before a failure
stay. -/
def makeDirectories (fs : Files) (p : Path) : Files × Option FileError :=
  match checkNames p with
  | .error e => (fs, some e)
  | .ok () => fs.makeAlong (if p.isAbsolute then [] else fs.cwd) false p.parts

/-- Changes files in a directory, which is made if it is missing. -/
def within (fs : Files) (directory : Path) (change : Files → Except FileError Files) :
    Files × Option FileError :=
  match fs.makeDirectories directory with
  | (fs, none) => fs.after (change fs)
  | (fs, some e) => (fs, some e)

/-- The path from the root without any `..`, if a file can have it. -/
def resolve (fs : Files) (p : Path) : Except FileError Path :=
  match p.fault? with
  | none => .ok (Path.resolve fs.cwdPath p)
  | some .null => .error .nullInName
  | some (.half ..) => .error .halfInName

/-- Gives the file at a path another name in the same directory, in place of a file of that name. -/
def rename (fs : Files) (p : Path) (name : Text) : Except FileError Files :=
  match fs.read p with
  | .error e => .error e
  | .ok c => match fs.write (p.parent.child name) c with
    | .error e => .error e
    | .ok fs => fs.remove p

/-- Whether one list of names comes before another, compared name by name. -/
def namesBefore : List Text → List Text → Bool
  | [], _ => true
  | _ :: _, [] => false
  | a :: as, b :: bs => if a = b then namesBefore as bs else a.lt b

/-- The regular files below a directory, each by the path that leads there from the given one, in
the order of their names. -/
def below (fs : Files) (p : Path) : List Path :=
  match fs.locate p with
  | .error _ => []
  | .ok way => match fs.entry? way with
    | some .directory =>
      let inner := fs.entries.entries.filterMap fun e => match e.2 with
        | .regular _ =>
          if way.isPrefixOf e.1 && decide (way.length < e.1.length) then
            some (e.1.drop way.length)
          else none
        | _ => none
      (inner.mergeSort namesBefore).map fun names => ⟨p.anchor, p.parts ++ names⟩
    | _ => []

end Files

end CallAtlas
