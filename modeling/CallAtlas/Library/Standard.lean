import CallAtlas.Library
import CallAtlas.Pattern.Parser
import CallAtlas.Pattern.Plan
import CallAtlas.Text.Quoted

/-! # The standard libraries

Validation keeps to the types that are declared, a symbol is printed as its fields, and patterns
are those that `Pattern.parse` reads. -/

namespace CallAtlas

/-- The printed form of a type. -/
def SymbolType.toText : SymbolType → Text
  | .member .function => "<SymbolType.FUNCTION: 'function'>"
  | .member .method => "<SymbolType.METHOD: 'method'>"
  | .plain text => text.quoted

/-- The printed form of the class of a method. -/
def Symbol.classText : Option Text → Text
  | none => "None"
  | some c => c.quoted

/-- A symbol as its fields. -/
def Symbol.printed (type : SymbolType) : Symbol → Text
  | .function name => "type=" ++ type.toText ++ " name=" ++ name.quoted
  | .method name className =>
    "type=" ++ type.toText ++ " name=" ++ name.quoted ++ " class_name=" ++ classText className

/-- The libraries as they are documented. -/
@[reducible]
def Library.standard : Library where
  typeOf := .member
  classless := none
  printed := Symbol.printed
  limits := ⟨some Text.digitLimit, some 200⟩
  search pattern := (Pattern.parse pattern).map Pattern.occursIn

end CallAtlas
