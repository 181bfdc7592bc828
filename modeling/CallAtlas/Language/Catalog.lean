import CallAtlas.Language.Cpp
import CallAtlas.Language.Python

/-! # The known languages -/

namespace CallAtlas.Language

/-- All languages that can be asked for by name. -/
def all : List Language := [python, c, cpp]

/-- The language of a name. -/
def byName? (name : Text) : Option Language := all.find? fun l => (l.name : Text) = name

/-- What is printed when a language is asked for that is not known. -/
def unknownWarning (name : Text) : Text :=
  "Warning: No language processor found for '" ++ name ++ "'"

end CallAtlas.Language
