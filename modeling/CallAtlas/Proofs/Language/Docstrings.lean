import CallAtlas.Language.Python
import CallAtlas.Proofs.Outcome

/-! # Docstrings

A string describes a function if it is the first statement of the body (`OfFirst`). The search for
it passes over the layout of the body, but over expressions that are no strings as well
(`docNode?_eq_some_iff`), so it also finds a string that stands behind such expressions (`Late`).

* `doc_ofFirst_iff`: only the first statement describes a function iff no string is late. -/

namespace CallAtlas.Language.Python

/-- The first statement of a body: the first of its nodes that is not layout. -/
def firstStatement? (nodes : List Tree) : Option Tree :=
  nodes.find? fun t => decide (t.kind ∉ layoutKinds)

/-- A statement is an expression with a string. -/
def HasString (statement string : Tree) : Prop :=
  statement.kind = "expression_statement" ∧ statement.ofKind? "string" = some string

/-- A statement is an expression without a string. -/
def IsSilent (statement : Tree) : Prop :=
  statement.kind = "expression_statement" ∧ statement.ofKind? "string" = none

/-- A string stands among nodes behind layout and expressions without a string only. -/
def Reaches (nodes : List Tree) (string : Tree) : Prop :=
  ∃ before statement after, nodes = before ++ statement :: after ∧
    (∀ n ∈ before, n.kind ∈ layoutKinds ∨ IsSilent n) ∧ HasString statement string

/-- The text of a docstring is that of a string. -/
def Tells (s : Source) (string : Tree) (text : Text) : Prop :=
  ∃ raw, s.text string = .ok raw ∧ tidy raw = text

/-- The first statement of a function is an expression, and its first string tells a text. -/
def OfFirst (s : Source) (t : Tree) (text : Text) : Prop :=
  ∃ body, t.child? "body" = some body ∧ ∃ first, firstStatement? body.children = some first ∧
    ∃ string, HasString first string ∧ Tells s string text

/-- The first statement of a function is an expression without a string. One that tells a text
stands behind it, where all statements before it are such expressions. -/
def Late (s : Source) (t : Tree) (text : Text) : Prop :=
  ∃ body, t.child? "body" = some body ∧ ∃ first, firstStatement? body.children = some first ∧
    IsSilent first ∧ ∃ string, Reaches body.children string ∧ Tells s string text

/-! ## Statements -/

theorem expression_not_mem_layoutKinds : "expression_statement" ∉ layoutKinds := by decide

theorem HasString.not_layout {t string : Tree} (h : HasString t string) : t.kind ∉ layoutKinds := by
  rw [h.1]
  exact expression_not_mem_layoutKinds

theorem IsSilent.not_layout {t : Tree} (h : IsSilent t) : t.kind ∉ layoutKinds := by
  rw [h.1]
  exact expression_not_mem_layoutKinds

theorem IsSilent.not_hasString {t string : Tree} (h : IsSilent t) : ¬HasString t string := by
  intro hs
  rw [HasString, h.2] at hs
  cases hs.2

theorem firstStatement?_cons_of_layout {t : Tree} (ts : List Tree) (h : t.kind ∈ layoutKinds) :
    firstStatement? (t :: ts) = firstStatement? ts :=
  List.find?_cons_of_neg (by simpa using h)

theorem firstStatement?_cons_of_not_layout {t : Tree} (ts : List Tree)
    (h : t.kind ∉ layoutKinds) : firstStatement? (t :: ts) = some t :=
  List.find?_cons_of_pos (by simpa using h)

/-! ## The search -/

theorem not_reaches_nil (string : Tree) : ¬Reaches [] string := by
  rintro ⟨before, statement, after, h, -⟩
  simp at h

theorem reaches_cons {t string : Tree} {ts : List Tree} :
    Reaches (t :: ts) string ↔
      HasString t string ∨ (t.kind ∈ layoutKinds ∨ IsSilent t) ∧ Reaches ts string := by
  refine ⟨?_, ?_⟩
  · rintro ⟨before, statement, after, heq, hpassed, hs⟩
    cases before with
    | nil =>
      rw [List.nil_append, List.cons.injEq] at heq
      exact .inl (heq.1 ▸ hs)
    | cons b before =>
      rw [List.cons_append, List.cons.injEq] at heq
      rw [List.forall_mem_cons, ← heq.1] at hpassed
      exact .inr ⟨hpassed.1, before, statement, after, heq.2, hpassed.2, hs⟩
  · rintro (hs | ⟨hpass, before, statement, after, rfl, hpassed, hs⟩)
    · exact ⟨[], t, ts, rfl, by simp, hs⟩
    · exact ⟨t :: before, statement, after, rfl, List.forall_mem_cons.2 ⟨hpass, hpassed⟩, hs⟩

theorem docNode?_eq_some_iff {nodes : List Tree} {string : Tree} :
    docNode? nodes = some string ↔ Reaches nodes string := by
  induction nodes with
  | nil => simp [docNode?, not_reaches_nil]
  | cons t ts ih =>
    rw [reaches_cons, ← ih]
    by_cases hk : t.kind = "expression_statement"
    · cases hs : t.ofKind? "string" with
      | none => simp [docNode?, HasString, IsSilent, hk, hs]
      | some found => simp [docNode?, HasString, IsSilent, hk, hs, expression_not_mem_layoutKinds]
    · simp [docNode?, HasString, IsSilent, hk]

theorem doc_eq_ok_some_iff {s : Source} {t : Tree} {text : Text} :
    doc s t = .ok (some text) ↔ ∃ body, t.child? "body" = some body ∧
      ∃ string, Reaches body.children string ∧ Tells s string text := by
  simp only [← docNode?_eq_some_iff]
  unfold doc
  split
  · next hnone =>
    refine ⟨fun h => absurd h (by simp), ?_⟩
    rintro ⟨body, hbody, string, hstring, -⟩
    rw [hbody, Option.bind_some, hstring] at hnone
    cases hnone
  · next string hsome =>
    obtain ⟨body, hbody, hstring⟩ := Option.bind_eq_some_iff.1 hsome
    refine ⟨fun h => ?_, ?_⟩
    · obtain ⟨raw, hraw, htext⟩ := ok_of_map h
      exact ⟨body, hbody, string, hstring, raw, hraw, Option.some.inj htext⟩
    · rintro ⟨body', hbody', string', hstring', raw, hraw, rfl⟩
      obtain rfl := Option.some.inj (hbody.symm.trans hbody')
      obtain rfl := Option.some.inj (hstring.symm.trans hstring')
      rw [hraw]
      rfl

/-- A string is found in the first statement, or that is an expression without one. -/
theorem Reaches.first {nodes : List Tree} {string : Tree} (h : Reaches nodes string) :
    ∃ first, firstStatement? nodes = some first ∧ (HasString first string ∨ IsSilent first) := by
  induction nodes with
  | nil => exact absurd h (not_reaches_nil string)
  | cons t ts ih =>
    rcases reaches_cons.1 h with hs | ⟨hlayout | hsilent, hts⟩
    · exact ⟨t, firstStatement?_cons_of_not_layout ts hs.not_layout, .inl hs⟩
    · rw [firstStatement?_cons_of_layout ts hlayout]
      exact ih hts
    · exact ⟨t, firstStatement?_cons_of_not_layout ts hsilent.not_layout, .inr hsilent⟩

theorem reaches_of_first {nodes : List Tree} {first string : Tree}
    (h : firstStatement? nodes = some first) (hs : HasString first string) :
    Reaches nodes string := by
  induction nodes with
  | nil => cases h
  | cons t ts ih =>
    by_cases hlayout : t.kind ∈ layoutKinds
    · rw [firstStatement?_cons_of_layout ts hlayout] at h
      exact reaches_cons.2 (.inr ⟨.inl hlayout, ih h⟩)
    · rw [firstStatement?_cons_of_not_layout ts hlayout, Option.some.injEq] at h
      exact reaches_cons.2 (.inl (h ▸ hs))

/-! ## What is found -/

theorem doc_eq_iff_ofFirst_or_late {s : Source} {t : Tree} {text : Text} :
    doc s t = .ok (some text) ↔ OfFirst s t text ∨ Late s t text := by
  rw [doc_eq_ok_some_iff]
  refine ⟨?_, ?_⟩
  · rintro ⟨body, hbody, string, hreach, htells⟩
    obtain ⟨first, hfirst, hs | hsilent⟩ := hreach.first
    · exact .inl ⟨body, hbody, first, hfirst, string, hs, htells⟩
    · exact .inr ⟨body, hbody, first, hfirst, hsilent, string, hreach, htells⟩
  · rintro (⟨body, hbody, first, hfirst, string, hs, htells⟩ |
      ⟨body, hbody, -, -, -, string, hreach, htells⟩)
    · exact ⟨body, hbody, string, reaches_of_first hfirst hs, htells⟩
    · exact ⟨body, hbody, string, hreach, htells⟩

/-- The first statement has no string if another one is found behind it. -/
theorem Late.not_ofFirst {s : Source} {t : Tree} {text other : Text} (h : Late s t text) :
    ¬OfFirst s t other := by
  rintro ⟨body, hbody, first, hfirst, string, hs, -⟩
  obtain ⟨body', hbody', first', hfirst', hsilent, -⟩ := h
  obtain rfl := Option.some.inj (hbody.symm.trans hbody')
  obtain rfl := Option.some.inj (hfirst.symm.trans hfirst')
  exact hsilent.not_hasString hs

/-- What `doc` tells of a function is `OfFirst`, the first string of its first statement, or `Late`,
a string behind expressions that have none. So only the first statement can be a docstring iff no
string is `Late`. -/
theorem doc_ofFirst_iff (s : Source) (t : Tree) :
    (∀ text, doc s t = .ok (some text) ↔ OfFirst s t text ∨ Late s t text) ∧
    ((∀ text, doc s t = .ok (some text) → OfFirst s t text) ↔ ∀ text, ¬Late s t text) := by
  refine ⟨fun text => doc_eq_iff_ofFirst_or_late, fun h text hlate => ?_, fun h text hdoc => ?_⟩
  · exact hlate.not_ofFirst (h text (doc_eq_iff_ofFirst_or_late.2 (.inr hlate)))
  · exact (doc_eq_iff_ofFirst_or_late.1 hdoc).resolve_right (h text)

/-- A function that makes a call before its only string. -/
def lateString : Tree :=
  .node "function_definition" 0 27 none
    [.node "block" 13 27 (some "body")
      [.node "expression_statement" 13 16 none [.node "call" 13 16 none []],
       .node "expression_statement" 21 27 none [.node "string" 21 27 none []]]]

def lateSource : Source := ⟨.ofText "m.py", "def f():\n    g()\n    \"late\"\n".toUTF8⟩

theorem doc_ofFirst_iff_lateString :
    doc lateSource lateString = .ok (some "late") ∧ Late lateSource lateString "late" ∧
    ¬∀ text, doc lateSource lateString = .ok (some text) → OfFirst lateSource lateString text := by
  have hdoc : doc lateSource lateString = .ok (some "late") := ok_of_toOption (by decide +kernel)
  obtain ⟨hcases, hiff⟩ := doc_ofFirst_iff lateSource lateString
  have hlate : Late lateSource lateString "late" := by
    refine ((hcases _).1 hdoc).resolve_left ?_
    rintro ⟨body, hbody, first, hfirst, string, hs, -⟩
    obtain rfl := Option.some.inj hbody
    obtain rfl := Option.some.inj hfirst
    cases hs.2
  exact ⟨hdoc, hlate, fun h => hiff.1 h _ hlate⟩

end CallAtlas.Language.Python
