import CallAtlas.Path

/-! # Paths and their texts

A path that a text names (`Path.Named`) is one whose names are not empty, are not a single dot and
hold no slash (`named_iff`). Such a path is what its own text names.

* `Named.ofText_toText`: the text of a path is read as that path. -/

namespace CallAtlas

/-! ## Pairs -/

namespace Rune

theorem areUnpaired_append_char (a b : List Rune) (c : Char) :
    areUnpaired (a ++ .char c :: b) = (areUnpaired a && areUnpaired b) := by
  induction a with
  | nil =>
    cases b with
    | nil => rfl
    | cons y b => simp [areUnpaired, pair?_char_left]
  | cons x a ih =>
    cases a with
    | nil =>
      rw [List.nil_append] at ih
      simp [areUnpaired, pair?_char_right, ih]
    | cons y a =>
      rw [List.cons_append] at ih
      simp only [List.cons_append, areUnpaired, ih, Bool.and_assoc]

theorem areUnpaired_chars_append (cs : List Char) {rs : List Rune} (h : areUnpaired rs = true) :
    areUnpaired (cs.map .char ++ rs) = true := by
  induction cs with
  | nil => exact h
  | cons c cs ih =>
    have hc := areUnpaired_append_char [] (cs.map .char ++ rs) c
    rw [ih, List.nil_append] at hc
    exact hc

theorem areUnpaired_of_prefix {a b : List Rune} (h : a <+: b) (hb : areUnpaired b = true) :
    areUnpaired a = true := by
  induction a generalizing b with
  | nil => rfl
  | cons x a ih =>
    obtain ⟨rest, rfl⟩ := h
    cases a with
    | nil => rfl
    | cons y a =>
      simp only [List.cons_append, areUnpaired, Bool.and_eq_true] at hb ⊢
      exact ⟨hb.1, ih ⟨rest, rfl⟩ hb.2⟩

theorem areUnpaired_tail {x : Rune} {rs : List Rune} (h : areUnpaired (x :: rs) = true) :
    areUnpaired rs = true := by
  cases rs with
  | nil => rfl
  | cons y rs =>
    rw [areUnpaired, Bool.and_eq_true] at h
    exact h.2

end Rune

namespace Text

theorem ofString_inj {s t : String} : ofString s = ofString t ↔ s = t :=
  ⟨ofString_injective, congrArg _⟩

theorem runes_ofRunes {rs : List Rune} (h : Rune.areUnpaired rs = true) : (ofRunes rs).runes = rs :=
  Rune.joinPairs_of_areUnpaired h

theorem runes_ofString_append (s : String) (t : Text) :
    (ofString s ++ t).runes = s.toList.map .char ++ t.runes :=
  runes_ofRunes (Rune.areUnpaired_chars_append s.toList t.unpaired)

theorem areUnpaired_joinRunes (c : Char) (ts : List Text) :
    Rune.areUnpaired (joinRunes [.char c] ts) = true := by
  induction ts with
  | nil => rfl
  | cons t ts ih =>
    cases ts with
    | nil => exact t.unpaired
    | cons u ts =>
      rw [joinRunes, List.append_assoc, List.singleton_append, Rune.areUnpaired_append_char,
        t.unpaired, ih]
      · rfl
      · simp

end Text

namespace Path

/-- A text can stand between slashes as a name. -/
def IsName (name : Text) : Prop :=
  name.runes ≠ [] ∧ name.runes ≠ [.char '.'] ∧ Rune.char '/' ∉ name.runes

/-- A text names the path. -/
def Named (p : Path) : Prop := ∃ t, p = ofText t

/-! ## Splitting -/

theorem split_of_not_mem {rs : List Rune} (h : Rune.char '/' ∉ rs) : split rs = [rs] := by
  induction rs with
  | nil => rfl
  | cons r rs ih =>
    simp only [List.mem_cons, not_or] at h
    rw [split, if_neg (Ne.symm h.1), ih h.2]

theorem split_append {rs : List Rune} (h : Rune.char '/' ∉ rs) (rest : List Rune) :
    split (rs ++ .char '/' :: rest) = rs :: split rest := by
  induction rs with
  | nil => rw [List.nil_append, split, if_pos rfl]
  | cons r rs ih =>
    simp only [List.mem_cons, not_or] at h
    rw [List.cons_append, split, if_neg (Ne.symm h.1), ih h.2]

theorem split_joinRunes {ts : List Text} (hne : ts ≠ []) (h : ∀ t ∈ ts, Rune.char '/' ∉ t.runes) :
    split (Text.joinRunes [.char '/'] ts) = ts.map Text.runes := by
  induction ts with
  | nil => exact absurd rfl hne
  | cons t ts ih =>
    cases ts with
    | nil => exact split_of_not_mem (h t (.head _))
    | cons u ts =>
      rw [Text.joinRunes, List.append_assoc, List.singleton_append, split_append (h t (.head _)),
        ih (by simp) fun x hx => h x (.tail _ hx)]
      · rfl
      · simp

theorem prefix_of_split {rs p : List Rune} {ps : List (List Rune)} (h : split rs = p :: ps) :
    p <+: rs := by
  induction rs generalizing p ps with
  | nil => cases h; exact List.prefix_refl _
  | cons r rs ih =>
    rw [split] at h
    split at h
    · cases h; exact List.nil_prefix
    · split at h
      · cases h; exact ⟨rs, rfl⟩
      · next hs => cases h; exact (List.cons_prefix_cons).2 ⟨rfl, ih hs⟩

theorem of_mem_split {rs piece : List Rune} (hrs : Rune.areUnpaired rs = true)
    (h : piece ∈ split rs) : Rune.char '/' ∉ piece ∧ Rune.areUnpaired piece = true := by
  induction rs generalizing piece with
  | nil => rw [List.mem_singleton.1 h]; exact ⟨by simp, rfl⟩
  | cons r rs ih =>
    have hrest := Rune.areUnpaired_tail hrs
    rw [split] at h
    split at h
    · rcases List.mem_cons.1 h with rfl | h
      · exact ⟨by simp, rfl⟩
      · exact ih hrest h
    · next hr =>
      split at h
      · rw [List.mem_singleton.1 h]
        exact ⟨by simpa using Ne.symm hr, rfl⟩
      · next p ps hs =>
        rcases List.mem_cons.1 h with rfl | h
        · have hp : p ∈ split rs := by rw [hs]; exact .head _
          refine ⟨by simp [(ih hrest hp).1, Ne.symm hr], ?_⟩
          exact Rune.areUnpaired_of_prefix
            (List.cons_prefix_cons.2 ⟨rfl, prefix_of_split hs⟩) hrs
        · exact ih hrest (by rw [hs]; exact .tail _ h)

theorem isName_of_mem_ofText {t name : Text} (h : name ∈ (ofText t).parts) : IsName name := by
  obtain ⟨piece, hpiece, rfl⟩ := List.mem_map.1 h
  obtain ⟨hsplit, hkept⟩ := List.mem_filter.1 hpiece
  obtain ⟨hslash, hunpaired⟩ := of_mem_split t.unpaired hsplit
  rw [IsName, Text.runes_ofRunes hunpaired]
  simp only [Bool.and_eq_true, Bool.not_eq_true', bne_iff_ne, List.isEmpty_eq_false_iff] at hkept
  exact ⟨hkept.1, hkept.2, hslash⟩

/-! ## Reading the text of a path -/

section
variable {names : List Text} (h : ∀ name ∈ names, IsName name)
include h

theorem takeWhile_joinRunes :
    (Text.joinRunes [.char '/'] names).takeWhile (· == Rune.char '/') = [] := by
  cases names with
  | nil => rfl
  | cons name names =>
    obtain ⟨hne, -, hslash⟩ := h name (.head _)
    obtain ⟨r, rs, hr⟩ := List.exists_cons_of_ne_nil hne
    have hr' : (r == Rune.char '/') = false := by
      rw [hr, List.mem_cons, not_or] at hslash
      exact beq_eq_false_iff_ne.2 (Ne.symm hslash.1)
    cases names <;> simp [Text.joinRunes, hr, hr']

theorem names_joinRunes :
    ((split (Text.joinRunes [.char '/'] names)).filter fun p => !p.isEmpty && p != [.char '.']).map
      Text.ofRunes = names := by
  cases hn : names with
  | nil => simp [Text.joinRunes, split]
  | cons name rest =>
    rw [← hn, split_joinRunes (by simp [hn]) fun t ht => (h t ht).2.2, List.filter_eq_self.2]
    · simp [Function.comp_def]
    · intro rs hrs
      obtain ⟨t, ht, rfl⟩ := List.mem_map.1 hrs
      obtain ⟨hne, hdot, -⟩ := h t ht
      simp [hne, hdot]

end

theorem ofText_toText_of_isName {p : Path} (h : ∀ name ∈ p.parts, IsName name) :
    ofText p.toText = p := by
  obtain ⟨anchor, parts⟩ := p
  have hstart := takeWhile_joinRunes h
  have hnames := names_joinRunes h
  have hjoin : (Text.join "/" parts).runes = Text.joinRunes [.char '/'] parts :=
    Text.runes_ofRunes (Text.areUnpaired_joinRunes '/' parts)
  cases anchor with
  | relative =>
    cases parts with
    | nil => rfl
    | cons name parts =>
      simp only [toText, List.isEmpty_cons, Bool.false_eq_true, if_false, ofText, hjoin, hnames,
        anchorOf, hstart, List.length_nil]
  | root =>
    have hrunes : ((("/" : String) : Text) ++ Text.join "/" parts).runes =
        .char '/' :: Text.joinRunes [.char '/'] parts := by
      rw [Text.runes_ofString_append, hjoin]
      rfl
    simp only [toText, ofText, hrunes, split, if_true, anchorOf, beq_self_eq_true,
      List.takeWhile_cons_of_pos, hstart, List.length_singleton]
    rw [List.filter_cons_of_neg (by simp), hnames]
  | doubleRoot =>
    have hrunes : ((("//" : String) : Text) ++ Text.join "/" parts).runes =
        .char '/' :: .char '/' :: Text.joinRunes [.char '/'] parts := by
      rw [Text.runes_ofString_append, hjoin]
      rfl
    simp only [toText, ofText, hrunes, split, if_true, anchorOf, beq_self_eq_true,
      List.takeWhile_cons_of_pos, hstart]
    rw [List.filter_cons_of_neg (by simp), List.filter_cons_of_neg (by simp), hnames]
    rfl

theorem named_iff {p : Path} : p.Named ↔ ∀ name ∈ p.parts, IsName name := by
  constructor
  · rintro ⟨t, rfl⟩ name hname
    exact isName_of_mem_ofText hname
  · intro h
    exact ⟨p.toText, (ofText_toText_of_isName h).symm⟩

theorem Named.ofText_toText {p : Path} (h : p.Named) : ofText p.toText = p :=
  ofText_toText_of_isName (named_iff.1 h)

theorem Named.toText_inj {p q : Path} (hp : p.Named) (hq : q.Named) : p.toText = q.toText ↔ p = q := by
  refine ⟨fun h => ?_, congrArg toText⟩
  rw [← hp.ofText_toText, h, hq.ofText_toText]

/-! ## Paths from the root -/

theorem mem_of_mem_walk {done names : List Text} {name : Text} (h : name ∈ walk done names) :
    name ∈ done ∨ name ∈ names := by
  induction names generalizing done with
  | nil => exact .inl (List.mem_reverse.1 h)
  | cons n names ih =>
    rw [walk] at h
    rcases ih h with h | h
    · split at h
      · exact .inl (List.mem_of_mem_tail h)
      · rcases List.mem_cons.1 h with rfl | h
        · exact .inr (.head _)
        · exact .inl h
    · exact .inr (.tail _ h)

theorem Named.resolve {cwd p : Path} (hcwd : cwd.Named) (hp : p.Named) : (resolve cwd p).Named := by
  rw [named_iff] at hcwd hp ⊢
  intro name hname
  rcases mem_of_mem_walk hname with h | h
  · rw [List.mem_reverse] at h
    split at h
    · cases h
    · exact hcwd name h
  · exact hp name h

end Path

end CallAtlas
