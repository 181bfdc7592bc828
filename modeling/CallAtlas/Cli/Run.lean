import CallAtlas.Cli.Arguments
import CallAtlas.Indexer
import CallAtlas.Language.Catalog

/-! # The command line

Indexes a directory and saves the index. The program exits with zero if that succeeded, with one
if it failed, and with two if it was called wrongly. -/

namespace CallAtlas.Cli

/-- How the program is called. -/
def usage : Text :=
  "usage: callatlas [-h] [-l \x7bpython,c,cpp\x7d] [-o OUTPUT] "
    ++ "[--dump-type \x7bjson,sqlite,none\x7d] repo_path"

/-- What the program and its options are for. -/
def helpText : Text :=
  usage ++ "\n\nCodeIndex: 一个用于索引源代码中函数定义和引用的命令行工具。\n\n"
    ++ "positional arguments:\n  repo_path\n"
    ++ "    需要被索引的代码仓库或目录的路径。\n\n"
    ++ "options:\n  -h, --help\n    show this help message and exit\n"
    ++ "  -l \x7bpython,c,cpp\x7d, --language \x7bpython,c,cpp\x7d\n"
    ++ "    指定要索引的编程语言。默认为 'python'。\n"
    ++ "  -o OUTPUT, --output OUTPUT\n"
    ++ "    指定导出索引结果的文件或目录路径（相对于要解析的项目根目录）。"
    ++ "如果未指定，则默认为 repo_path 下的 [index.json/index.sqlite]。\n"
    ++ "  --dump-type \x7bjson,sqlite,none\x7d, --dt \x7bjson,sqlite,none\x7d\n"
    ++ "    指定导出索引数据的格式。默认为 'json'。"

/-- How a run ended: its exit code and what it has to say. -/
structure Outcome where
  files : Files
  exit : Nat
  message : Text

/-- The name of the file of an index in a directory. -/
def defaultName : Store.Format → Text
  | .document => "index.json"
  | .database => "index.sqlite"

/-- Why a run breaks off. -/
inductive RunError where
  /-- A file cannot be read to its end. -/
  | indexing (cause : IndexingError)
  /-- The option for the output was given without a value. -/
  | emptyOutput
  /-- The option for the language was given without a value. -/
  | emptyLanguage
  deriving DecidableEq, Repr

def RunError.message : RunError → Text
  | .indexing cause => cause.message
  | .emptyOutput => "there is no place for the output"
  | .emptyLanguage => "there is no language"

/-- A format with the file that the index is to be saved in. -/
structure Target where
  format : Store.Format
  path : Path

/-- The file of an index of a format; in a directory it has a fixed name. -/
def targetIn (fs : Files) (f : Store.Format) (p : Path) : Target :=
  ⟨f, if fs.isDirectory p then p.child (defaultName f) else p⟩

/-- What the index is to be saved as, if it is to be saved. -/
def target? (fs : Files) (s : Settings) : Except RunError (Option Target) :=
  match s.dump, s.output with
  | .format f, .inRepository => .ok (some (targetIn fs f s.repo))
  | .format f, .path p => .ok (some (targetIn fs f p))
  | .format _, .empty => .error .emptyOutput
  | _, _ => .ok none

/-- Saves the index of a run. -/
def saveIndex [Library] (fs : Files) (target : Option Target) (x : Indexer) : Outcome :=
  match target with
  | none => ⟨fs, 0, ""⟩
  | some t => match x.save fs t.format t.path with
    | (fs, none) => ⟨fs, 0, "索引数据已导出到 " ++ t.path.toText⟩
    | (fs, some e) => ⟨fs, 1, "导出索引失败。" ++ e.message⟩

/-- Indexes a directory with an indexer and saves the index. -/
def indexWith [Library] (parse : Parser) (fs : Files) (repo : Path) (target : Option Target)
    (language : Text) : Except RunError Outcome :=
  match Language.byName? language with
  | none => .ok ⟨fs, 1, "初始化索引器失败。未找到适用于 '" ++ language ++ "' 的语言处理器。"⟩
  | some l => match (Indexer.start l .listed true).indexProject parse fs repo with
    | (_, some e) => .error (.indexing e)
    | (x, none) => .ok (saveIndex fs target x)

/-- Does what settings ask for. -/
def index [Library] (parse : Parser) (fs : Files) (s : Settings) : Except RunError Outcome :=
  if !fs.isDirectory s.repo then
    .ok ⟨fs, 1, "提供的路径 '" ++ s.repo.toText ++ "' 不是一个有效的目录。"⟩
  else if s.dump = .empty then .ok ⟨fs, 1, "不支持的持久化策略 '[]'。"⟩
  else match target? fs s, s.language with
    | .error e, _ => .error e
    | .ok _, none => .error .emptyLanguage
    | .ok target, some language => indexWith parse fs s.repo target language

/-- Runs the program with arguments. -/
def run [Library] (parse : Parser) (fs : Files) (arguments : List Text) : Except RunError Outcome :=
  match read arguments with
  | .error e => .ok ⟨fs, 2, usage ++ "\ncallatlas: error: " ++ e.message⟩
  | .ok .help => .ok ⟨fs, 0, helpText⟩
  | .ok (.index s) => index parse fs s

end CallAtlas.Cli
