import CallAtlas.Language.Basic
import CallAtlas.Text.Blank
import CallAtlas.Text.Lines

/-! # Comments

The text of a comment without its marks, and the comments that stand before a definition. -/

namespace CallAtlas.Language.Comment

/-- A comment without the marks at its start and its end. -/
def unmark (raw : Text) : List Rune :=
  let rs := raw.runes
  if raw.startsWith "/*" && raw.endsWith "*/" then (rs.drop 2).take (rs.length - 4)
  else if raw.startsWith "//" then rs.drop 2
  else rs

/-- A line without blanks at its ends and without the star that starts it. -/
def unstar (rs : List Rune) : List Rune :=
  match Text.trim rs with
  | .char '*' :: .char ' ' :: rest => rest
  | .char '*' :: rest => rest
  | rest => rest

/-- The text of a comment. -/
def tidy (raw : Text) : Text :=
  .ofRunes (Text.trim (Text.joinLines ((Text.pieces (unmark raw)).map unstar)))

/-- The kinds of nodes that may stand between a comment and the definition it belongs to. -/
def passedOver : List String :=
  ["preproc_include", "preproc_def", "preproc_ifdef", "preproc_ifndef", "preproc_endif",
   "preproc_else", "preproc_elif"]

/-- The comments before a definition, the nearest first, where the nodes before it are given the
nearest first. -/
def collect (s : Source) : List Tree → Except ReadFault (List Text)
  | [] => .ok []
  | t :: ts =>
    if t.kind = "comment" then match s.text t with
      | .error e => .error e
      | .ok raw => match collect s ts with
        | .error e => .error e
        | .ok rest => .ok (tidy raw :: rest)
    else if t.kind ∈ passedOver then collect s ts
    else .ok []

/-- The comments before a definition as one text. -/
def before (s : Source) (c : Cursor) : Except ReadFault (Option Text) :=
  match collect s c.before with
  | .error e => .error e
  | .ok [] => .ok none
  | .ok found => .ok (some (Text.join "\n" found.reverse))

end CallAtlas.Language.Comment
