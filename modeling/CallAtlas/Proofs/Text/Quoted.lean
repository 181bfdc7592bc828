import CallAtlas.Proofs.Path
import CallAtlas.Text.Numeral
import CallAtlas.Text.Quoted
import Mathlib.Data.List.Basic

/-! # Texts read back from between quotes

What stands between quotes is read code point by code point (`unescape`), so a quoted text gives
away both the text and where it ends. The same holds of a numeral that no digit follows.

* `quoted_append_inj`, `integer_append_inj`: the text or the number in front of something else is
  determined, and so is what follows. -/

namespace CallAtlas

/-! ## Code points -/

namespace Rune

theorem ofUnit_code (r : Rune) : ofUnit r.code = r := by
  cases r with
  | char c =>
    have hvalid : ¬(0xD800 ≤ c.toNat ∧ c.toNat < 0xE000) := by
      have := c.valid
      simp only [UInt32.isValidChar, Nat.isValidChar] at this
      simp only [Char.toNat]
      omega
    rw [code, ofUnit, dif_neg hvalid, Char.ofNat_toNat]
  | half n =>
    rw [ofUnit, dif_pos (by simp only [code]; omega)]
    simp [code]

theorem code_inj {a b : Rune} (h : a.code = b.code) : a = b := by
  rw [← ofUnit_code a, h, ofUnit_code]

theorem code_lt (r : Rune) : r.code < 0x110000 := by
  cases r with
  | char c =>
    have := c.valid
    simp only [UInt32.isValidChar, Nat.isValidChar] at this
    simp only [code, Char.toNat]
    omega
  | half n => simp only [code]; omega

theorem areUnpaired_of_forall_char {rs : List Rune} (h : ∀ r ∈ rs, r.isHalf = false) :
    areUnpaired rs = true := by
  induction rs with
  | nil => rfl
  | cons r rs ih =>
    have hrest := ih fun s hs => h s (.tail _ hs)
    cases r with
    | half n => exact absurd (h _ (.head _)) (by simp [isHalf])
    | char c => exact areUnpaired_chars_append [c] hrest

end Rune

namespace Text

theorem runesLe_antisymm {as bs : List Rune} (h : runesLe as bs = true) (h' : runesLe bs as = true) :
    as = bs := by
  induction as generalizing bs with
  | nil =>
    cases bs with
    | nil => rfl
    | cons b bs => simp [runesLe] at h'
  | cons a as ih =>
    cases bs with
    | nil => simp [runesLe] at h
    | cons b bs =>
      by_cases hab : a.code = b.code
      · rw [runesLe, if_pos hab] at h
        rw [runesLe, if_pos hab.symm] at h'
        rw [Rune.code_inj hab, ih h h']
      · rw [runesLe, if_neg hab, decide_eq_true_eq] at h
        rw [runesLe, if_neg (Ne.symm hab), decide_eq_true_eq] at h'
        omega

theorem le_antisymm {a b : Text} (h : a.le b = true) (h' : b.le a = true) : a = b :=
  ext (runesLe_antisymm h h')

theorem isPrintable_half (n : Fin 2048) : isPrintable (.half n) = false := by
  have hranges : ∀ range ∈ printableRanges, range.2 < 0xD800 ∨ 0xE000 ≤ range.1 := by
    decide +kernel
  rw [Bool.eq_false_iff]
  intro h
  obtain ⟨range, hmem, hlow, hhigh⟩ := CodePoint.within_iff.1 h
  have := hranges range hmem
  simp only [Rune.code] at hlow hhigh
  omega

namespace Quoted

/-! ## Hexadecimal digits -/

/-- The number that a hexadecimal digit stands for. -/
def hexDigit (c : Char) : Nat := ((List.range 16).find? fun d => d.digitChar == c).getD 0

/-- The number that hexadecimal digits stand for. -/
def hexValue (ds : List Char) : Nat := ds.foldl (fun n c => 16 * n + hexDigit c) 0

theorem hexDigit_digitChar : ∀ d < 16, hexDigit d.digitChar = d := by decide

theorem hexValue_concat (ds : List Char) (c : Char) :
    hexValue (ds ++ [c]) = 16 * hexValue ds + hexDigit c := by
  simp [hexValue]

theorem hexValue_zeros (n : Nat) (ds : List Char) :
    hexValue (List.replicate n '0' ++ ds) = hexValue ds := by
  induction n with
  | zero => rfl
  | succ n ih =>
    rw [List.replicate_succ, List.cons_append, ← ih]
    rfl

theorem hexValue_toDigits (n : Nat) : hexValue (Nat.toDigits 16 n) = n := by
  induction n using Nat.strongRecOn with
  | ind n ih =>
    by_cases hn : n < 16
    · rw [Nat.toDigits_of_lt_base hn, ← List.nil_append [_], hexValue_concat,
        hexDigit_digitChar n hn]
      exact Nat.zero_add n
    · rw [Nat.toDigits_of_base_le (by decide) (by omega), hexValue_concat, ih (n / 16) (by omega),
        hexDigit_digitChar _ (by omega)]
      omega

theorem hexValue_hex (width n : Nat) : hexValue (hex width n) = n := by
  rw [hex, hexValue_zeros, hexValue_toDigits]

theorem length_hex {width n : Nat} (hw : 0 < width) (h : n < Nat.pow 16 width) :
    (hex width n).length = width := by
  have hle := (Nat.length_toDigits_le_iff (b := 16) (by decide) hw).2 h
  rw [hex, List.length_append, List.length_replicate]
  omega

/-! ## Escapes -/

/-- The code point whose number is written in so many digits, and what follows. -/
def readNumbered (width : Nat) (rs : List Rune) : Rune × List Rune :=
  (.ofUnit (hexValue ((rs.take width).map Rune.shown)), rs.drop width)

/-- The code point that is written after a backslash, and what follows. -/
def readMarked : List Rune → Option (Rune × List Rune)
  | [] => none
  | .char 't' :: rest => some ('\t', rest)
  | .char 'n' :: rest => some ('\n', rest)
  | .char 'r' :: rest => some ('\r', rest)
  | .char 'x' :: rest => some (readNumbered 2 rest)
  | .char 'u' :: rest => some (readNumbered 4 rest)
  | .char 'U' :: rest => some (readNumbered 8 rest)
  | r :: rest => some (r, rest)

/-- The first code point that is written between quotes, and what follows. -/
def unescape : List Rune → Option (Rune × List Rune)
  | [] => none
  | r :: rest => if r = '\\' then readMarked rest else some (r, rest)

theorem readNumbered_hex {width n : Nat} (hw : 0 < width) (h : n < Nat.pow 16 width) (rest : List Rune) :
    readNumbered width ((hex width n).map .char ++ rest) = (.ofUnit n, rest) := by
  have hlen : ((hex width n).map Rune.char).length = width := by
    rw [List.length_map, length_hex hw h]
  have hshown : Rune.shown ∘ Rune.char = id := rfl
  rw [readNumbered, List.take_left' hlen, List.drop_left' hlen, List.map_map, hshown, List.map_id,
    hexValue_hex]

theorem unescape_backslash (rest : List Rune) : unescape (.char '\\' :: rest) = readMarked rest := by
  rw [unescape, if_pos rfl]

theorem unescape_numbered (r : Rune) (rest : List Rune) :
    unescape ((numbered r.code).map .char ++ rest) = some (r, rest) := by
  have hcode : r.code < Nat.pow 16 8 := Nat.lt_trans r.code_lt (by decide)
  unfold numbered
  split
  · next h =>
    simp only [List.map_cons, List.cons_append, unescape_backslash, readMarked]
    rw [readNumbered_hex (by decide) h, Rune.ofUnit_code]
  split
  · next h =>
    simp only [List.map_cons, List.cons_append, unescape_backslash, readMarked]
    rw [readNumbered_hex (by decide) h, Rune.ofUnit_code]
  · simp only [List.map_cons, List.cons_append, unescape_backslash, readMarked]
    rw [readNumbered_hex (by decide) hcode, Rune.ofUnit_code]

/-- One of the two quotes. -/
def IsQuote (q : Char) : Prop := q = '\'' ∨ q = '"'

theorem isQuote_quoteFor (rs : List Rune) : IsQuote (quoteFor rs) := by
  unfold quoteFor
  split
  · exact .inr rfl
  · exact .inl rfl

section
variable {q : Char} (hq : IsQuote q)
include hq

/-- A code point between quotes is read back. -/
theorem unescape_escape (r : Rune) (rest : List Rune) :
    unescape (escape q r ++ rest) = some (r, rest) := by
  unfold escape
  split
  · next h =>
    simp only [Bool.or_eq_true, decide_eq_true_eq] at h
    rcases hq with rfl | rfl <;> rcases h with rfl | rfl <;> rfl
  next hplain =>
  split
  · next h => rw [h]; rfl
  split
  · next h => rw [h]; rfl
  split
  · next h => rw [h]; rfl
  split
  · simp only [Bool.or_eq_true, decide_eq_true_eq, not_or] at hplain
    simp [unescape, hplain.2]
  · exact unescape_numbered r rest

/-- No code point is written with a quote in front. -/
theorem escape_eq_cons (r : Rune) : ∃ a as, escape q r = a :: as ∧ a ≠ .char q := by
  have hslash : (Rune.char '\\') ≠ .char q := by rcases hq with rfl | rfl <;> decide
  unfold escape
  split
  · exact ⟨_, _, rfl, hslash⟩
  next hplain =>
  split
  · exact ⟨_, _, rfl, hslash⟩
  split
  · exact ⟨_, _, rfl, hslash⟩
  split
  · exact ⟨_, _, rfl, hslash⟩
  split
  · simp only [Bool.or_eq_true, decide_eq_true_eq, not_or] at hplain
    exact ⟨_, _, rfl, hplain.1⟩
  · unfold numbered
    split
    · exact ⟨_, _, rfl, hslash⟩
    split
    · exact ⟨_, _, rfl, hslash⟩
    · exact ⟨_, _, rfl, hslash⟩

theorem escapes_append_inj {rs ss x y : List Rune}
    (h : rs.flatMap (escape q) ++ .char q :: x = ss.flatMap (escape q) ++ .char q :: y) :
    rs = ss ∧ x = y := by
  induction rs generalizing ss with
  | nil =>
    cases ss with
    | nil => exact ⟨rfl, (List.cons.inj h).2⟩
    | cons s ss =>
      obtain ⟨a, as, hs, ha⟩ := escape_eq_cons hq s
      rw [List.flatMap_cons, hs] at h
      exact absurd (List.cons.inj h).1.symm ha
  | cons r rs ih =>
    cases ss with
    | nil =>
      obtain ⟨a, as, hr, ha⟩ := escape_eq_cons hq r
      rw [List.flatMap_cons, hr] at h
      exact absurd (List.cons.inj h).1 ha
    | cons s ss =>
      rw [List.flatMap_cons, List.flatMap_cons, List.append_assoc, List.append_assoc] at h
      have hread := congrArg unescape h
      rw [unescape_escape hq, unescape_escape hq] at hread
      obtain ⟨rfl, hrest⟩ := Prod.mk.inj (Option.some.inj hread)
      obtain ⟨rfl, hxy⟩ := ih hrest
      exact ⟨rfl, hxy⟩

end

/-- Halves are never written as they are. -/
theorem exists_chars_escape (q : Char) (r : Rune) : ∃ cs : List Char, escape q r = cs.map .char := by
  unfold escape
  split
  · next h =>
    simp only [Bool.or_eq_true, decide_eq_true_eq] at h
    rcases h with rfl | rfl
    · exact ⟨['\\', q], rfl⟩
    · exact ⟨['\\', '\\'], rfl⟩
  split
  · exact ⟨['\\', 't'], rfl⟩
  split
  · exact ⟨['\\', 'n'], rfl⟩
  split
  · exact ⟨['\\', 'r'], rfl⟩
  split
  · next h =>
    cases r with
    | char c => exact ⟨[c], rfl⟩
    | half n => exact absurd h (by rw [isPrintable_half]; exact Bool.false_ne_true)
  · exact ⟨_, rfl⟩

end Quoted

/-! ## Quoted texts -/

theorem isHalf_of_mem_quoted {t : Text} {r : Rune}
    (h : r ∈ .char (Quoted.quoteFor t.runes) ::
      (t.runes.flatMap (Quoted.escape (Quoted.quoteFor t.runes)) ++
        [.char (Quoted.quoteFor t.runes)])) : r.isHalf = false := by
  simp only [List.mem_cons, List.mem_append, List.mem_flatMap, List.not_mem_nil, or_false] at h
  rcases h with rfl | ⟨a, -, hr⟩ | rfl
  · rfl
  · obtain ⟨cs, hcs⟩ := Quoted.exists_chars_escape (Quoted.quoteFor t.runes) a
    rw [hcs, List.mem_map] at hr
    obtain ⟨c, -, rfl⟩ := hr
    rfl
  · rfl

theorem runes_quoted (t : Text) :
    t.quoted.runes = .char (Quoted.quoteFor t.runes) ::
      (t.runes.flatMap (Quoted.escape (Quoted.quoteFor t.runes)) ++
        [.char (Quoted.quoteFor t.runes)]) :=
  runes_ofRunes (Rune.areUnpaired_of_forall_char fun _ => isHalf_of_mem_quoted)

theorem hasHalf_quoted (t : Text) : t.quoted.hasHalf = false := by
  rw [hasHalf, List.any_eq_false, runes_quoted]
  intro r hr
  rw [isHalf_of_mem_quoted hr]
  exact Bool.false_ne_true

theorem quoted_append_inj {t u : Text} {x y : List Rune}
    (h : t.quoted.runes ++ x = u.quoted.runes ++ y) : t = u ∧ x = y := by
  rw [runes_quoted, runes_quoted, List.cons_append, List.cons_append, List.append_assoc,
    List.append_assoc] at h
  obtain ⟨hquote, hrest⟩ := List.cons.inj h
  rw [← Rune.char.inj hquote] at hrest
  obtain ⟨hrunes, hxy⟩ := Quoted.escapes_append_inj (Quoted.isQuote_quoteFor t.runes) hrest
  exact ⟨ext hrunes, hxy⟩

/-! ## Numerals -/

/-- Whether a code point is a digit. -/
def isDigitRune : Rune → Bool
  | .char c => isDigit c
  | .half _ => false

/-- Code points that do not go on with a digit. -/
def EndsNumeral (rs : List Rune) : Prop := ∀ r ∈ rs.head?, isDigitRune r = false

theorem takeWhile_digits {ds : List Char} (hds : ∀ c ∈ ds, isDigit c = true) {x : List Rune}
    (hx : EndsNumeral x) :
    (ds.map Rune.char ++ x).takeWhile isDigitRune = ds.map Rune.char := by
  have hall : ∀ r ∈ ds.map Rune.char, isDigitRune r = true := by
    intro r hr
    obtain ⟨c, hc, rfl⟩ := List.mem_map.1 hr
    exact hds c hc
  have hstop : x.takeWhile isDigitRune = [] := by
    cases x with
    | nil => rfl
    | cons r x => exact List.takeWhile_cons_of_neg (by rw [hx r rfl]; exact Bool.false_ne_true)
  rw [List.takeWhile_append_of_pos hall, hstop, List.append_nil]

theorem numeral_append_inj {m n : Nat} {x y : List Rune} (hx : EndsNumeral x) (hy : EndsNumeral y)
    (h : (numeral m).map Rune.char ++ x = (numeral n).map Rune.char ++ y) : m = n ∧ x = y := by
  have hdigits := congrArg (List.takeWhile isDigitRune) h
  rw [takeWhile_digits (fun _ => isDigit_of_mem_numeral) hx,
    takeWhile_digits (fun _ => isDigit_of_mem_numeral) hy] at hdigits
  have hnumeral : numeral m = numeral n :=
    List.map_injective_iff.2 (fun _ _ => Rune.char.inj) hdigits
  rw [hdigits] at h
  exact ⟨by rw [← value_numeral m, hnumeral, value_numeral], List.append_cancel_left h⟩

theorem numeral_append_ne {n : Nat} {x y : List Rune} :
    (numeral n).map Rune.char ++ x ≠ .char '-' :: y := by
  intro h
  obtain ⟨d, ds, hds⟩ := List.exists_cons_of_ne_nil (numeral_ne_nil n)
  have hd : isDigit d = true := isDigit_of_mem_numeral (n := n) (hds ▸ .head _)
  rw [hds, List.map_cons, List.cons_append] at h
  rw [Rune.char.inj (List.cons.inj h).1] at hd
  exact absurd hd (by decide)

theorem integer_append_inj {m n : Int} {x y : List Rune} (hx : EndsNumeral x) (hy : EndsNumeral y)
    (h : (integer m).map Rune.char ++ x = (integer n).map Rune.char ++ y) : m = n ∧ x = y := by
  cases m with
  | ofNat m =>
    cases n with
    | ofNat n =>
      obtain ⟨rfl, hxy⟩ := numeral_append_inj hx hy h
      exact ⟨rfl, hxy⟩
    | negSucc n => exact absurd h numeral_append_ne
  | negSucc m =>
    cases n with
    | ofNat n => exact absurd h.symm numeral_append_ne
    | negSucc n =>
      obtain ⟨hmn, hxy⟩ := numeral_append_inj hx hy (List.cons.inj h).2
      exact ⟨by rw [Nat.succ.inj hmn], hxy⟩

end Text

end CallAtlas
