import CallAtlas.Files
import CallAtlas.Text.Lines
import CallAtlas.Text.Numeral
import CallAtlas.Window

/-! # Fetching source text

Files are read once and then answered from memory, whatever becomes of them. Windows that reach
beyond a file are cut down to it, with a warning. -/

namespace CallAtlas.Fetch

/-- Why a text cannot be fetched. -/
inductive Error where
  | notFound (file : Path)
  | file (cause : FileError)
  | notText
  | linesReversed (start stop : Int)
  | bytesReversed (start stop : Int)
  | bytesEmpty (start stop : Int)
  deriving DecidableEq, Repr

def Error.message : Error → Text
  | .notFound p => "File not found: " ++ p.toText
  | .file _ => "the file cannot be read"
  | .notText => "bytes that are no text"
  | .linesReversed a b => "start_line (" ++ Text.ofInt a ++ ") cannot be greater than end_line ("
      ++ Text.ofInt b ++ ")."
  | .bytesReversed a b => "start_byte (" ++ Text.ofInt a ++ ") cannot be greater than end_byte ("
      ++ Text.ofInt b ++ ")."
  | .bytesEmpty a b => "start_byte (" ++ Text.ofInt a
      ++ ") cannot be greater than or equal to end_byte (" ++ Text.ofInt b ++ ")."

/-- The contents of files that have been read. -/
abbrev Cache := OrderedMap Path ByteArray

/-- The bytes that are read from a file. -/
def bytesOf : FileContent → ByteArray
  | .bytes data => data
  | .database _ => .empty

/-- The bytes of a file, from memory if it was read before. -/
def bytes (fs : Files) (cache : Cache) (p : Path) : Cache × Except Error ByteArray :=
  match cache.get? p with
  | some data => (cache, .ok data)
  | none =>
    if fs.pathExists p then match fs.read p with
      | .ok c => (cache.insert p (bytesOf c), .ok (bytesOf c))
      | .error e => (cache, .error (.file e))
    else (cache, .error (.notFound p))

/-- The text of bytes. -/
def decode (data : ByteArray) : Except Error Text :=
  match Text.ofUTF8? data with
  | some t => .ok t
  | none => .error .notText

/-- The text of a file. -/
def text (fs : Files) (cache : Cache) (p : Path) : Cache × Except Error Text :=
  match bytes fs cache p with
  | (cache, .ok data) => (cache, decode data)
  | (cache, .error e) => (cache, .error e)

/-! ## Windows -/

/-- How a unit that is counted is called, and where it counts from. -/
structure Measure where
  noun : Text
  first : Int

def lineMeasure : Measure := ⟨"line", 1⟩

def byteMeasure : Measure := ⟨"byte", 0⟩

/-- The warnings for a window of a file with `n` units. -/
def warnings (m : Measure) (n : Nat) (start stop : Int) : List Text :=
  (if start < m.first then
    ["start_" ++ m.noun ++ " (" ++ Text.ofInt start ++ ") is less than " ++ Text.ofInt m.first
      ++ ", adjusting to " ++ Text.ofInt m.first ++ "."]
  else [])
  ++ (if Int.ofNat n < stop then
    ["end_" ++ m.noun ++ " (" ++ Text.ofInt stop ++ ") is greater than total " ++ m.noun ++ "s ("
      ++ Text.ofNat n ++ "), adjusting to " ++ Text.ofNat n ++ "."]
  else [])

/-- The lines from `start` to `stop`, counted from one, both included. -/
def lineWindow (content : Text) (start stop : Int) : Text :=
  let ls := Text.lines content.runes
  .ofRunes (Text.joinLines
    (window ls (some (max start 1 - 1)) (some (min stop (Int.ofNat ls.length)))))

/-- The bytes from `start` up to `stop`. -/
def byteWindow (data : ByteArray) (start stop : Int) : ByteArray :=
  data.extract (cut data.size (max start 0)) (cut data.size (min stop (Int.ofNat data.size)))

/-- The warnings that a fetch gave, with its answer. -/
structure Fetched where
  warnings : List Text
  answer : Except Error Text

/-- A window of lines of a file. -/
def lines (fs : Files) (cache : Cache) (p : Path) (start stop : Int) : Cache × Fetched :=
  if stop < start then (cache, ⟨[], .error (.linesReversed start stop)⟩)
  else match text fs cache p with
    | (cache, .error e) => (cache, ⟨[], .error e⟩)
    | (cache, .ok content) =>
      (cache, ⟨warnings lineMeasure (Text.lines content.runes).length start stop,
        .ok (lineWindow content start stop)⟩)

/-- A window of bytes of a file, as text. -/
def byteRange (fs : Files) (cache : Cache) (p : Path) (start stop : Int) : Cache × Fetched :=
  if stop < start then (cache, ⟨[], .error (.bytesReversed start stop)⟩)
  else match bytes fs cache p with
    | (cache, .error e) => (cache, ⟨[], .error e⟩)
    | (cache, .ok data) =>
      (cache, ⟨warnings byteMeasure data.size start stop, decode (byteWindow data start stop)⟩)

/-- A window of at least one byte of a file, as text. -/
def properByteRange (fs : Files) (cache : Cache) (p : Path) (start stop : Int) :
    Cache × Fetched :=
  if stop ≤ start then (cache, ⟨[], .error (.bytesEmpty start stop)⟩)
  else byteRange fs cache p start stop

end CallAtlas.Fetch
