import CallAtlas.Path
import CallAtlas.Store.Basic
import CallAtlas.Text.Quoted
import CallAtlas.Text.Word

/-! # Arguments of the command line

The arguments are first told apart into words and options, then read from left to right. Long
options may be cut short as long as it is clear which one is meant, and an option may be joined to
its value. After two dashes everything is a word. -/

namespace CallAtlas.Cli

/-! ## Options -/

/-- The options. -/
inductive Flag where
  | help
  | language
  | output
  | dumpType
  deriving DecidableEq, Repr

/-- The names of the options. -/
def names : List (Text × Flag) :=
  [("-h", .help), ("--help", .help), ("-l", .language), ("--language", .language),
   ("-o", .output), ("--output", .output), ("--dump-type", .dumpType), ("--dt", .dumpType)]

/-- All names of an option. -/
def Flag.title (f : Flag) : Text :=
  Text.join "/" ((names.filter fun n => n.2 = f).map Prod.fst)

/-- The values that an option takes; without a list it takes any. -/
def Flag.choices : Flag → Option (List Text)
  | .language => some ["python", "c", "cpp"]
  | .dumpType => some ["json", "sqlite", "none"]
  | _ => none

/-- Why arguments are refused. -/
inductive UsageError where
  | ambiguous (argument : Text) (candidates : List Text)
  | noValue (flag : Flag)
  | needlessValue (flag : Flag) (value : Text)
  | badChoice (flag : Flag) (value : Text)
  | noRepository
  | unrecognized (arguments : List Text)
  deriving DecidableEq, Repr

def UsageError.message : UsageError → Text
  | .ambiguous a cs =>
    "ambiguous option: " ++ a ++ " could match " ++ Text.join ", " cs
  | .noValue f => "argument " ++ f.title ++ ": expected one argument"
  | .needlessValue f v =>
    "argument " ++ f.title ++ ": ignored explicit argument " ++ v.quoted
  | .badChoice f v => "argument " ++ f.title ++ ": invalid choice: " ++ v.quoted
      ++ " (choose from "
      ++ Text.join ", " ((f.choices.getD []).map Text.quoted) ++ ")"
  | .noRepository => "the following arguments are required: repo_path"
  | .unrecognized as => "unrecognized arguments: " ++ Text.join " " as

/-! ## Words and options -/

/-- What an argument is. -/
inductive Token where
  | word (text : Text)
  | separator
  /-- An option by a long or a short name, perhaps joined to a value. -/
  | option (flag : Flag) (long : Bool) (value : Option Text)
  /-- Something that looks like an option. -/
  | unknown (text : Text)
  deriving DecidableEq, Repr

/-- The text before the first equals sign and the text after it. -/
def splitEquals : List Rune → Option (List Rune × List Rune)
  | [] => none
  | r :: rs => if r = '=' then some ([], rs) else (splitEquals rs).map fun p => (r :: p.1, p.2)

/-- A text without the line feed that may end it. -/
def dropFinalFeed (rs : List Rune) : List Rune :=
  if rs.getLast? = some (.char '\n') then rs.dropLast else rs

/-- Whether an argument is a number below zero, perhaps with a line feed after it. -/
def isNegativeNumber (rs : List Rune) : Bool :=
  match dropFinalFeed rs with
  | .char '-' :: rs =>
    let whole := rs.takeWhile Text.isDecimalDigit
    match rs.dropWhile Text.isDecimalDigit with
    | [] => !whole.isEmpty
    | .char '.' :: fraction => !fraction.isEmpty && fraction.all Text.isDecimalDigit
    | _ => false
  | _ => false

/-- Whether a name is a long one. -/
def isLong (name : Text) : Bool := name.startsWith "--"

/-- The options whose names start with a text. -/
def startingWith (start : List Rune) (value : Option Text) : List (Text × Token) :=
  (names.filter fun n => start.isPrefixOf n.1.runes).map fun n =>
    (n.1, .option n.2 (isLong n.1) value)

/-- The options that an argument may mean by the start of a name. -/
def candidates (rs : List Rune) : List (Text × Token) :=
  match rs with
  | .char '-' :: .char '-' :: _ => match splitEquals rs with
    | some (start, value) => startingWith start (some (Text.ofRunes value))
    | none => startingWith rs none
  | _ =>
    let joined := (names.filter fun n => n.1.runes = rs.take 2).map fun n =>
      (n.1, Token.option n.2 false (some (Text.ofRunes (rs.drop 2))))
    joined ++ startingWith rs none

/-- The option with exactly a name. -/
def exactly? (name : List Rune) (value : Option Text) : Option Token :=
  let name := Text.ofRunes name
  (names.lookup name).map fun f => .option f (isLong name) value

/-- Tells an argument with a dash. -/
def classifyDashed (rs : List Rune) : Except UsageError Token :=
  let exact := (exactly? rs none).or ((splitEquals rs).bind fun p =>
    exactly? p.1 (some (Text.ofRunes p.2)))
  match exact, candidates rs with
  | some t, _ => .ok t
  | none, [c] => .ok c.2
  | none, [] =>
    if isNegativeNumber rs || rs.contains (.char ' ') then .ok (.word (Text.ofRunes rs))
    else .ok (.unknown (Text.ofRunes rs))
  | none, several => .error (.ambiguous (Text.ofRunes rs) (several.map Prod.fst))

/-- Tells what an argument is. -/
def classify (argument : Text) : Except UsageError Token :=
  match argument.runes with
  | .char '-' :: r :: rs => classifyDashed (.char '-' :: r :: rs)
  | _ => .ok (.word argument)

/-- Tells what all arguments are. -/
def tokens : List Text → Except UsageError (List Token)
  | [] => .ok []
  | a :: rest =>
    if a = "--" then .ok (.separator :: rest.map .word)
    else match classify a, tokens rest with
      | .ok t, .ok ts => .ok (t :: ts)
      | .error e, _ => .error e
      | _, .error e => .error e

/-! ## Settings -/

/-- Where the index is put. -/
inductive Output where
  | inRepository
  | path (p : Path)
  /-- The option was given without a value. -/
  | empty
  deriving DecidableEq, Repr

/-- How the index is saved. -/
inductive Dump where
  | format (f : Store.Format)
  | nothing
  /-- The option was given without a value. -/
  | empty
  deriving DecidableEq, Repr

/-- What is to be done. There is no language if its option was given without a value. -/
structure Settings where
  repo : Path
  language : Option Text
  output : Output
  dump : Dump
  deriving DecidableEq, Repr

/-- What the arguments ask for. -/
inductive Request where
  | help
  | index (s : Settings)
  deriving DecidableEq, Repr

/-- What has been read so far. -/
structure Draft where
  repo : Option Path
  language : Option Text
  output : Output
  dump : Dump
  extras : List Text

def Draft.start : Draft := ⟨none, some "python", .inRepository, .format .document, []⟩

/-- What a choice stands for. -/
def dumpOf (choice : Text) : Dump :=
  if choice = "json" then .format .document
  else if choice = "sqlite" then .format .database
  else .nothing

/-- Takes the value of an option. -/
def Draft.set (d : Draft) (value : Text) : Flag → Draft
  | .language => { d with language := some value }
  | .output => { d with output := .path (.ofText value) }
  | .dumpType => { d with dump := dumpOf value }
  | .help => d

/-- Takes an option that was given without a value. -/
def Draft.clear (d : Draft) : Flag → Draft
  | .language => { d with language := none }
  | .output => { d with output := .empty }
  | .dumpType => { d with dump := .empty }
  | .help => d

/-- Takes the value of an option, if it is one of its choices. Two dashes are no value. -/
def Draft.take (d : Draft) (f : Flag) (value : Text) : Except UsageError Draft :=
  if value = "--" then .ok (d.clear f)
  else if f.choices.all fun cs => cs.contains value then .ok (d.set value f)
  else .error (.badChoice f value)

def Draft.finish (d : Draft) : Except UsageError Request :=
  match d.repo with
  | none => .error .noRepository
  | some repo =>
    if d.extras.isEmpty then .ok (.index ⟨repo, d.language, d.output, d.dump⟩)
    else .error (.unrecognized d.extras)

def Draft.addExtra (d : Draft) (text : Text) : Draft := { d with extras := d.extras ++ [text] }

/-- Whether a word comes next. -/
def startsWithWord : List Token → Bool
  | .word _ :: _ => true
  | _ => false

/-- The letters joined to the short option for help are options as well. They are read to their
end before help is given. -/
def helpWith (rest : List Token) : List Rune → Except UsageError Request
  | [] => .ok .help
  | r :: rs => match names.lookup (Text.ofRunes [.char '-', r]) with
    | none => .error (.needlessValue .help (Text.ofRunes (r :: rs)))
    | some .help => helpWith rest rs
    | some f => if rs.isEmpty && !startsWithWord rest then .error (.noValue f) else .ok .help

/-- Reads arguments from left to right. A separator goes with the repository next to it. -/
def readFrom (d : Draft) (afterRepo : Bool) : List Token → Except UsageError Request
  | [] => d.finish
  | .word w :: rest => match d.repo with
    | none => readFrom { d with repo := some (.ofText w) } true rest
    | some _ => readFrom (d.addExtra w) false rest
  | .separator :: rest =>
    if afterRepo || (d.repo.isNone && startsWithWord rest) then readFrom d false rest
    else readFrom (d.addExtra "--") false rest
  | .unknown text :: rest => readFrom (d.addExtra text) false rest
  | .option .help _ none :: _ => .ok .help
  | .option .help long (some v) :: rest =>
    if long || v.isEmpty then .error (.needlessValue .help v) else helpWith rest v.runes
  | .option f _ (some v) :: rest => match d.take f v with
    | .ok d => readFrom d false rest
    | .error e => .error e
  | .option f _ none :: .word w :: rest => match d.take f w with
    | .ok d => readFrom d false rest
    | .error e => .error e
  | .option f _ none :: _ => .error (.noValue f)

/-- What arguments ask for. -/
def read (arguments : List Text) : Except UsageError Request :=
  match tokens arguments with
  | .ok ts => readFrom .start false ts
  | .error e => .error e

end CallAtlas.Cli
