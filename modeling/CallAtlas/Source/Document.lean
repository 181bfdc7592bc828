import CallAtlas.Json.Basic
import CallAtlas.Source.Tree

/-! # Syntax trees in documents

A node is an object with its kind `t`, its bytes from `s` to `e`, its role `f` and its children
`c`. -/

namespace CallAtlas.Tree

/-- The word that a document is; words hold no halves of pairs. -/
def wordOf (j : Option Json) : Option String := (j.bind Json.text?).map Text.shown

def offsetOf : Option Json → Int
  | some (.int n) => n
  | _ => 0

mutual
/-- The tree of a document; what is missing is empty or zero. -/
def ofJson : Json → Tree
  | .obj fields =>
    let get (key : Text) := fields.lookup key
    .node ((wordOf (get "t")).getD "") (offsetOf (get "s")) (offsetOf (get "e"))
      (wordOf (get "f")) (childrenOf fields)
  | _ => .node "" 0 0 none []
/-- The children that are told by the first field of their name. -/
def childrenOf : List (Text × Json) → List Tree
  | [] => []
  | (k, j) :: rest => if k = "c" then ofItem j else childrenOf rest
def ofItem : Json → List Tree
  | .arr js => ofItems js
  | _ => []
def ofItems : List Json → List Tree
  | [] => []
  | j :: js => ofJson j :: ofItems js
end

end CallAtlas.Tree
