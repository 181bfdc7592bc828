import CallAtlas.Json.Reader
import CallAtlas.Json.Writer
import CallAtlas.Proofs.Text.Quoted
import Mathlib.Data.List.Nodup
import Mathlib.Tactic.IntervalCases

/-! # Documents read back as written

The reader takes exactly the text of a document `j` off a longer text, as long as that goes on the
way a document does (`Ends`) and `j` holds no floating-point number (`Floatless`). What it builds
meanwhile is what is built from `j` itself (`foldWithin`), and it fails where that fails.

* `read_render`: the text of a document is read as what is built from the document within limits.
* `parseWithin_render`: the text of a document that keeps within limits and has no object with a key
  twice (`Legible`) is read as that document. -/

namespace CallAtlas.Text

theorem fromUTF8?_toUTF8 (s : String) : String.fromUTF8? s.toUTF8 = some s := by
  simp only [String.fromUTF8?, String.toUTF8_eq_toByteArray, dif_pos s.isValidUTF8]
  rfl

theorem digitChar_ne_zero : ∀ d < 10, digitChar d = '0' → d = 0 := by decide

/-- A numeral starts with a digit, which is a zero only for the number zero. -/
theorem numeral_eq_cons (n : Nat) :
    ∃ d ds, d < 10 ∧ numeral n = digitChar d :: ds ∧ (d = 0 → n = 0) := by
  induction n using Nat.strongRecOn with
  | ind n ih =>
    rw [numeral]
    split
    · next h => exact ⟨n, [], h, rfl, id⟩
    · next h =>
      obtain ⟨d, ds, hd, hn, h0⟩ := ih (n / 10) (by omega)
      exact ⟨d, ds ++ [digitChar (n % 10)], hd, by rw [hn, List.cons_append], by omega⟩

end CallAtlas.Text

namespace CallAtlas.Json

/-! ## Blanks -/

theorem skip_newline (level : Nat) (cs : List Char) : skip (newline level ++ cs) = skip cs := by
  refine List.dropWhile_append_of_pos fun c hc => ?_
  rcases List.mem_cons.1 hc with rfl | hc
  · rfl
  · rw [List.eq_of_mem_replicate hc]; rfl

theorem skip_cons {c : Char} (cs : List Char) (h : isSpace c = false) :
    skip (c :: cs) = c :: cs := by
  simp [skip, h]

/-- What may follow a value inside a document or at its end. -/
def Ends (cs : List Char) : Prop := ∀ c ∈ cs.head?, c = ',' ∨ c = '\n'

theorem Ends.nil : Ends [] := nofun

theorem Ends.newline (level : Nat) (cs : List Char) : Ends (newline level ++ cs) := by
  intro c hc
  exact .inr (Option.some.inj hc).symm

theorem Ends.comma (cs : List Char) : Ends (',' :: cs) := by
  intro c hc
  exact .inl (Option.some.inj hc).symm

/-! ## Texts -/

/-- A sixteen-bit unit has four digits. -/
theorem hex_four {n : Nat} (h : n < 65536) :
    Text.Quoted.hex 4 n = [(n / 4096).digitChar, (n / 256 % 16).digitChar,
      (n / 16 % 16).digitChar, (n % 16).digitChar] := by
  have split (m : Nat) (hm : 16 ≤ m) := Nat.toDigits_of_base_le (b := 16) (by decide) hm
  have last (m : Nat) (hm : m < 16) := Nat.toDigits_of_lt_base hm
  have two : n / 16 / 16 = n / 256 := Nat.div_div_eq_div_mul ..
  have three : n / 256 / 16 = n / 4096 := Nat.div_div_eq_div_mul ..
  -- One case for each number of digits in front of which no zeros are put.
  by_cases h1 : n < 16
  · rw [Text.Quoted.hex, last n h1, Nat.mod_eq_of_lt h1, show n / 4096 = 0 by omega,
      show n / 256 % 16 = 0 by omega, show n / 16 % 16 = 0 by omega]
    rfl
  by_cases h2 : n < 256
  · rw [Text.Quoted.hex, split n (by omega), last (n / 16) (by omega), show n / 4096 = 0 by omega,
      show n / 256 % 16 = 0 by omega, Nat.mod_eq_of_lt (show n / 16 < 16 by omega)]
    rfl
  by_cases h3 : n < 4096
  · rw [Text.Quoted.hex, split n (by omega), split (n / 16) (by omega), two,
      last (n / 256) (by omega), show n / 4096 = 0 by omega,
      Nat.mod_eq_of_lt (show n / 256 < 16 by omega)]
    rfl
  · rw [Text.Quoted.hex, split n (by omega), split (n / 16) (by omega), two,
      split (n / 256) (by omega), three, last (n / 4096) (by omega)]
    rfl

theorem hexValue?_digitChar : ∀ d < 16, hexValue? d.digitChar = some d := by decide

/-- The escape of a sixteen-bit unit is read as the code point of the unit. -/
theorem textBody_unitEscape {n : Nat} (h : n < 65536) (cs : List Char) :
    textBody (unitEscape n ++ cs) = (textBody cs).map fun r => (.ofUnit n :: r.1, r.2) := by
  have digits : hex4? (n / 4096).digitChar (n / 256 % 16).digitChar (n / 16 % 16).digitChar
      (n % 16).digitChar = some n := by
    simp only [hex4?, hexValue?_digitChar _ (show n / 4096 < 16 by omega),
      hexValue?_digitChar _ (show n / 256 % 16 < 16 by omega),
      hexValue?_digitChar _ (show n / 16 % 16 < 16 by omega),
      hexValue?_digitChar _ (show n % 16 < 16 by omega)]
    exact congrArg some (by omega)
  rw [unitEscape, hex_four h]
  simp only [List.cons_append, List.nil_append, textBody, digits]

theorem eq_of_toNat {c : Char} {n : Nat} (h : c.toNat = n) : c = Char.ofNat n := by
  rw [← h, Char.ofNat_toNat]

/-- A character that needs no escape stands for itself. -/
theorem textBody_cons {c : Char} (quote : c ≠ '"') (slash : c ≠ '\\') (low : ¬c.toNat < 32)
    (cs : List Char) : textBody (c :: cs) = (textBody cs).map fun r => (.char c :: r.1, r.2) := by
  rw [textBody, if_neg (not_or.2 ⟨low, slash⟩)]
  · exact quote
  · exact fun _ _ _ _ _ h => absurd h slash
  · exact fun _ _ h => absurd h slash

theorem textBody_escape (c : Char) (cs : List Char) :
    textBody (escape c ++ cs) = (textBody cs).map fun r => (.char c :: r.1, r.2) := by
  unfold escape
  split
  · next h => subst h; rfl
  split
  · next h => subst h; rfl
  split
  · next h => subst h; rfl
  split
  · next h => subst h; rfl
  split
  · next h => subst h; rfl
  split
  · next h => rw [eq_of_toNat h]; rfl
  split
  · next h => rw [eq_of_toNat h]; rfl
  split
  · next h => rw [textBody_unitEscape (by omega), show Rune.ofUnit c.toNat = c from Rune.ofUnit_code c]
  · next quote slash _ _ _ _ _ low => exact textBody_cons quote slash low cs

theorem textBody_runeEscape (r : Rune) (cs : List Char) :
    textBody (runeEscape escape r ++ cs) = (textBody cs).map fun p => (r :: p.1, p.2) := by
  cases r with
  | char c => exact textBody_escape c cs
  | half n =>
    have := n.isLt
    rw [runeEscape, textBody_unitEscape (by simp only [Rune.code]; omega), Rune.ofUnit_code]

theorem textBody_flatMap (rs : List Rune) (rest : List Char) :
    textBody (rs.flatMap (runeEscape escape) ++ '"' :: rest) = some (rs, rest) := by
  induction rs with
  | nil => rfl
  | cons r rs ih =>
    rw [List.flatMap_cons, List.append_assoc, textBody_runeEscape, ih]
    rfl

/-! ## Numbers -/

theorem Ends.not_digit {cs : List Char} (h : Ends cs) : ∀ c ∈ cs.head?, Text.isDigit c = false := by
  intro c hc
  rcases h c hc with rfl | rfl <;> rfl

theorem digits_numeral (n : Nat) {rest : List Char} (h : Ends rest) :
    digits (Text.numeral n ++ rest) = (Text.numeral n, rest) := by
  have hd : ∀ c ∈ Text.numeral n, Text.isDigit c = true := fun c => Text.isDigit_of_mem_numeral
  rw [digits, List.takeWhile_append_of_pos hd, List.dropWhile_append_of_pos hd]
  cases rest with
  | nil => simp
  | cons c rest => simp [h.not_digit c rfl]

theorem whole_numeral (n : Nat) {rest : List Char} (h : Ends rest) :
    whole (Text.numeral n ++ rest) = some (Text.numeral n, rest) := by
  obtain ⟨d, ds, hd, hn, h0⟩ := Text.numeral_eq_cons n
  by_cases hz : d = 0
  · subst hz
    rw [h0 rfl, Text.numeral]
    rfl
  · have hdigits := digits_numeral n h
    rw [hn, List.cons_append] at hdigits ⊢
    rw [whole, hdigits]
    exact fun _ h => hz (Text.digitChar_ne_zero d hd (List.cons.inj h).1)

theorem Ends.fraction {cs : List Char} (h : Ends cs) : fraction cs = none := by
  cases cs with
  | nil => rfl
  | cons c cs => rcases h c rfl with rfl | rfl <;> rfl

theorem Ends.exponent {cs : List Char} (h : Ends cs) : exponent cs = none := by
  cases cs with
  | nil => rfl
  | cons c cs => rcases h c rfl with rfl | rfl <;> rfl

/-- The characters that texts, lists and objects start with. -/
def openers : List Char := ['"', '[', '{']

/-- The characters that start or end something other than a number. -/
def marks : List Char := openers ++ [']', '}', 'n', 't', 'f', 'N', 'I', '-']

theorem marks_ne_digitChar {d : Nat} (hd : d < 10) : ∀ w ∈ marks, w ≠ Text.digitChar d := by
  interval_cases d <;> simp [marks, openers, Text.digitChar]

/-- A value that starts neither as a text nor as a list or an object is a word or a number. -/
theorem readValue_eq_readWord {ε α : Type} (build : Builder ε α) (fuel : Nat) (limits : Limits)
    {c : Char} (hc : ∀ w ∈ openers, w ≠ c) (cs : List Char) :
    readValue build (fuel + 1) limits (c :: cs) = readWord limits build (c :: cs) := by
  simp only [openers, List.forall_mem_cons] at hc
  rw [readValue]
  · exact fun _ h => hc.1 (List.cons.inj h).1.symm
  · exact fun _ h => hc.2.1 (List.cons.inj h).1.symm
  · exact fun _ h => hc.2.2.1 (List.cons.inj h).1.symm

theorem readWord_digit {ε α : Type} (limits : Limits) (build : Builder ε α) {c : Char}
    (hc : ∀ w ∈ marks, w ≠ c) (cs : List Char) :
    readWord limits build (c :: cs) = readNumber limits build (c :: cs) := by
  simp only [marks, openers, List.cons_append, List.nil_append, List.forall_mem_cons] at hc
  simp [readWord, words, after?, hc]

theorem readWord_minus {ε α : Type} (limits : Limits) (build : Builder ε α) {c : Char}
    (hc : ∀ w ∈ marks, w ≠ c) (cs : List Char) :
    readWord limits build ('-' :: c :: cs) = readNumber limits build ('-' :: c :: cs) := by
  simp only [marks, openers, List.cons_append, List.nil_append, List.forall_mem_cons] at hc
  simp [readWord, words, after?, hc]

section
variable {ε α : Type} (build : Builder ε α) (limits : Limits) (n : Nat) {rest : List Char}
  (h : Ends rest)
include h

theorem readNumber_numeral : readNumber limits build (Text.numeral n ++ rest) =
    if limits.admits (Text.numeral n).length then .ok (build.int n, rest) else .error .tooLong := by
  have hsign : ∀ cs, Text.numeral n ++ rest = '-' :: cs → False := by
    obtain ⟨d, ds, hd, hn, -⟩ := Text.numeral_eq_cons n
    intro cs hcs
    rw [hn, List.cons_append] at hcs
    exact marks_ne_digitChar hd '-' (by simp [marks]) (List.cons.inj hcs).1.symm
  unfold readNumber
  simp only [whole_numeral n h, h.fraction, h.exponent, Text.value_numeral]
  rfl

theorem readNumber_minus : readNumber limits build ('-' :: (Text.numeral n ++ rest)) =
    if limits.admits (Text.numeral n).length then .ok (build.int (-n), rest)
    else .error .tooLong := by
  unfold readNumber
  simp only [whole_numeral n h, h.fraction, h.exponent, Text.value_numeral]
  rfl

theorem readValue_integer (n : Int) (fuel : Nat) :
    readValue build (fuel + 1) limits (Text.integer n ++ rest) =
      if limits.admits (Text.numeral n.natAbs).length then .ok (build.int n, rest)
      else .error .tooLong := by
  cases n with
  | ofNat n =>
    obtain ⟨d, ds, hd, hn, -⟩ := Text.numeral_eq_cons n
    have hne := marks_ne_digitChar hd
    have hread := readNumber_numeral build limits n h
    rw [Text.integer, show (Int.ofNat n).natAbs = n from rfl]
    rw [hn, List.cons_append] at hread ⊢
    rw [readValue_eq_readWord _ _ _ (fun w hw => hne w (List.mem_append_left _ hw)),
      readWord_digit _ _ hne, hread]
    rfl
  | negSucc n =>
    obtain ⟨d, ds, hd, hn, -⟩ := Text.numeral_eq_cons (n + 1)
    have hread := readNumber_minus build limits (n + 1) h
    rw [Text.integer, List.cons_append, Int.natAbs_negSucc]
    rw [hn, List.cons_append] at hread ⊢
    rw [readValue_eq_readWord _ _ _ (by simp [openers]), readWord_minus _ _ (marks_ne_digitChar hd),
      hread]
    rfl

end

/-! ## Values -/

/-- A document without floating-point numbers. -/
inductive Floatless : Json → Prop
  | null : Floatless .null
  | bool (b : Bool) : Floatless (.bool b)
  | int (n : Int) : Floatless (.int n)
  | str (s : Text) : Floatless (.str s)
  | arr (items : List Json) (each : ∀ j ∈ items, Floatless j) : Floatless (.arr items)
  | obj (fields : List (Text × Json)) (each : ∀ f ∈ fields, Floatless f.2) : Floatless (.obj fields)

mutual
/-- What is built from a document that has to keep within limits. -/
def foldWithin {ε α : Type} (build : Builder ε α) (limits : Limits) :
    Json → Except (ReadError ε) α
  | .null => .ok build.null
  | .bool b => .ok (build.bool b)
  | .int n =>
    if limits.admits (Text.numeral n.natAbs).length then .ok (build.int n) else .error .tooLong
  | .float x => .ok (build.float x)
  | .str s => .ok (build.str s)
  | .arr items => do
    let inner ← limits.enter
    return build.arr (← foldItemsWithin build inner items)
  | .obj fields => do
    let inner ← limits.enter
    match build.obj (← foldFieldsWithin build inner fields) with
    | .error e => .error (.refused e)
    | .ok a => .ok a
def foldItemsWithin {ε α : Type} (build : Builder ε α) (limits : Limits) :
    List Json → Except (ReadError ε) (List α)
  | [] => .ok []
  | j :: js => do
    let a ← foldWithin build limits j
    let as ← foldItemsWithin build limits js
    return a :: as
def foldFieldsWithin {ε α : Type} (build : Builder ε α) (limits : Limits) :
    List (Text × Json) → Except (ReadError ε) (List (Text × α))
  | [] => .ok []
  | (k, j) :: js => do
    let a ← foldWithin build limits j
    let as ← foldFieldsWithin build limits js
    return (k, a) :: as
end

/-- No value starts with a blank or a closing bracket. -/
theorem Floatless.write_eq_cons {j : Json} (h : Floatless j) (level : Nat) :
    ∃ c cs, write level j = c :: cs ∧ isSpace c = false ∧ c ≠ ']' := by
  cases h with
  | null => exact ⟨'n', _, rfl, rfl, by decide⟩
  | bool b => cases b <;> exact ⟨_, _, rfl, rfl, by decide⟩
  | int n =>
    cases n with
    | ofNat n =>
      obtain ⟨d, ds, hd, hn, -⟩ := Text.numeral_eq_cons n
      refine ⟨Text.digitChar d, ds, by rw [write, Text.integer, hn], ?_, ?_⟩
      · interval_cases d <;> rfl
      · exact (marks_ne_digitChar hd ']' (by simp [marks])).symm
    | negSucc n => exact ⟨'-', _, by rw [write, Text.integer], rfl, by decide⟩
  | str s => exact ⟨'"', _, by rw [write, text, textWith], rfl, by decide⟩
  | arr items => cases items <;> exact ⟨'[', _, by rw [write], rfl, by decide⟩
  | obj fields => cases fields <;> exact ⟨'{', _, by rw [write], rfl, by decide⟩

theorem Floatless.skip_write {j : Json} (h : Floatless j) (level : Nat) (rest : List Char) :
    skip (write level j ++ rest) = write level j ++ rest := by
  obtain ⟨c, cs, hw, hc, -⟩ := h.write_eq_cons level
  rw [hw, List.cons_append, skip_cons _ hc]

theorem Floatless.length_pos {j : Json} (h : Floatless j) (level : Nat) :
    0 < (write level j).length := by
  obtain ⟨c, cs, hw, -⟩ := h.write_eq_cons level
  rw [hw, List.length_cons]
  omega

section Reading

variable {ε α : Type} {build : Builder ε α}

/-- The text of a document is read as what is built from the document, wherever it stands, given a
step of reading for each half of a character. -/
def ReadsBack (build : Builder ε α) (j : Json) : Prop :=
  ∀ limits level fuel rest, 2 * (write level j).length ≤ fuel + 1 → Ends rest →
    readValue build fuel limits (write level j ++ rest) =
      (foldWithin build limits j).map fun a => (a, rest)

section Items

variable (limits : Limits) (level inner : Nat) (rest : List Char)

theorem readItems_write {j : Json} {js : List Json} (floatless : ∀ i ∈ j :: js, Floatless i)
    (back : ∀ i ∈ j :: js, ReadsBack build i) (fuel : Nat)
    (hf : 2 * ((write inner j).length + (writeItems inner js).length) ≤ fuel) :
    readItems build fuel limits
        (write inner j ++ (writeItems inner js ++ (newline level ++ ']' :: rest))) =
      (foldItemsWithin build limits (j :: js)).map fun as => (as, rest) := by
  induction js generalizing j fuel with
  | nil =>
    have hpos := (floatless j (by simp)).length_pos inner
    obtain ⟨fuel, rfl⟩ : ∃ n, fuel = n + 1 := ⟨fuel - 1, by omega⟩
    rw [writeItems, List.nil_append, readItems,
      back j (by simp) limits inner fuel _ (by omega) (.newline level _), foldItemsWithin]
    cases foldWithin build limits j with
    | error e => rfl
    | ok a =>
      simp only [Except.map, bind, Except.bind, skip_newline,
        skip_cons _ (show isSpace ']' = false from rfl)]
      rfl
  | cons i js ih =>
    have hpos := (floatless j (by simp)).length_pos inner
    have hi := floatless i (by simp)
    obtain ⟨fuel, rfl⟩ : ∃ n, fuel = n + 1 := ⟨fuel - 1, by omega⟩
    simp only [writeItems, List.length_cons, List.length_append] at hf
    have htail := ih (fun k hk => floatless k (List.mem_cons_of_mem _ hk))
      (fun k hk => back k (List.mem_cons_of_mem _ hk)) fuel (by omega)
    simp only [writeItems, List.cons_append, List.append_assoc]
    rw [readItems, back j (by simp) limits inner fuel _ (by omega) (.comma _), foldItemsWithin]
    cases foldWithin build limits j with
    | error e => rfl
    | ok a =>
      simp only [Except.map, bind, Except.bind, skip_cons _ (show isSpace ',' = false from rfl),
        skip_newline, hi.skip_write, htail]
      cases foldItemsWithin build limits (i :: js) <;> rfl

theorem text_append (t : Text) (cs : List Char) :
    text t ++ cs = '"' :: (t.runes.flatMap (runeEscape escape) ++ '"' :: cs) := by
  simp [text, textWith]

/-- A field is read up to what follows its value. -/
theorem readFields_field {k : Text} {j : Json} (floatless : Floatless j)
    (back : ReadsBack build j) {fuel : Nat} (hf : 2 * (write inner j).length ≤ fuel + 1)
    {tail : List Char} (ht : Ends tail) :
    readFields build (fuel + 1) limits (text k ++ ':' :: ' ' :: (write inner j ++ tail)) = (do
      let a ← foldWithin build limits j
      match skip tail with
      | '}' :: rest => .ok ([(k, a)], rest)
      | ',' :: rest => do
        let (as, rest) ← readFields build fuel limits (skip rest)
        return ((k, a) :: as, rest)
      | _ => .error .malformed) := by
  rw [text_append, readFields, textBody_flatMap]
  simp only [skip_cons _ (show isSpace ':' = false from rfl), Text.ofRunes_runes]
  rw [show skip (' ' :: (write inner j ++ tail)) = skip (write inner j ++ tail) from rfl,
    floatless.skip_write, back limits inner fuel tail hf ht]
  cases foldWithin build limits j <;> rfl

theorem readFields_write {k : Text} {j : Json} {js : List (Text × Json)}
    (floatless : ∀ f ∈ (k, j) :: js, Floatless f.2)
    (back : ∀ f ∈ (k, j) :: js, ReadsBack build f.2) (fuel : Nat)
    (hf : 2 * ((write inner j).length + (writeFields inner js).length) ≤ fuel) :
    readFields build fuel limits
        (text k ++ ':' :: ' ' :: (write inner j ++
          (writeFields inner js ++ (newline level ++ '}' :: rest)))) =
      (foldFieldsWithin build limits ((k, j) :: js)).map fun as => (as, rest) := by
  induction js generalizing k j fuel with
  | nil =>
    have hj : Floatless j := floatless (k, j) (by simp)
    have hpos := hj.length_pos inner
    obtain ⟨fuel, rfl⟩ : ∃ n, fuel = n + 1 := ⟨fuel - 1, by omega⟩
    rw [writeFields, List.nil_append,
      readFields_field limits inner hj (back (k, j) (by simp)) (by omega) (.newline level _),
      skip_newline, skip_cons _ rfl, foldFieldsWithin]
    cases foldWithin build limits j <;> rfl
  | cons f js ih =>
    have hj : Floatless j := floatless (k, j) (by simp)
    have hpos := hj.length_pos inner
    obtain ⟨fuel, rfl⟩ : ∃ n, fuel = n + 1 := ⟨fuel - 1, by omega⟩
    simp only [writeFields, List.length_cons, List.length_append] at hf
    have htail := ih (fun g hg => floatless g (List.mem_cons_of_mem _ hg))
      (fun g hg => back g (List.mem_cons_of_mem _ hg)) fuel (by omega)
    simp only [writeFields, List.cons_append, List.append_assoc, List.nil_append]
    rw [readFields_field limits inner hj (back (k, j) (by simp)) (by omega) (.comma _),
      skip_cons _ rfl, foldFieldsWithin]
    simp only [skip_newline]
    rw [text_append, skip_cons _ rfl, ← text_append, htail]
    cases foldWithin build limits j with
    | error e => rfl
    | ok a => cases foldFieldsWithin build limits ((f.1, f.2) :: js) <;> rfl

end Items

/-! ## Documents -/

theorem readsBack_arr {items : List Json} (floatless : ∀ j ∈ items, Floatless j)
    (back : ∀ j ∈ items, ReadsBack build j) : ReadsBack build (.arr items) := by
  intro limits level fuel rest hf _
  cases items with
  | nil =>
    obtain ⟨fuel, rfl⟩ : ∃ n, fuel = n + 1 := ⟨fuel - 1, by simp [write] at hf; omega⟩
    rw [write, List.cons_append, List.cons_append, readValue, foldWithin]
    cases limits.enter (ε := ε) <;> rfl
  | cons j js =>
    have hj := floatless j (by simp)
    obtain ⟨c, cs, hw, hc, hclose⟩ := hj.write_eq_cons (level + 1)
    simp only [write, List.length_cons, List.length_append] at hf
    obtain ⟨fuel, rfl⟩ : ∃ n, fuel = n + 1 := ⟨fuel - 1, by omega⟩
    simp only [write, List.cons_append, List.append_assoc, List.nil_append]
    rw [readValue, foldWithin]
    cases limits.enter (ε := ε) with
    | error e => rfl
    | ok within =>
      have hitems := readItems_write within level (level + 1) rest floatless back fuel (by omega)
      simp only [bind, Except.bind, skip_newline, hj.skip_write]
      -- The first item is no closing bracket, so the list is not taken for an empty one.
      rw [hw, List.cons_append] at hitems ⊢
      split
      · next h => exact absurd (List.cons.inj h).1 hclose
      · rw [hitems]
        cases foldItemsWithin build within (j :: js) <;> rfl

theorem readsBack_obj {fields : List (Text × Json)} (floatless : ∀ f ∈ fields, Floatless f.2)
    (back : ∀ f ∈ fields, ReadsBack build f.2) : ReadsBack build (.obj fields) := by
  intro limits level fuel rest hf _
  cases fields with
  | nil =>
    obtain ⟨fuel, rfl⟩ : ∃ n, fuel = n + 1 := ⟨fuel - 1, by simp [write] at hf; omega⟩
    rw [write, List.cons_append, List.cons_append, readValue, foldWithin]
    cases limits.enter (ε := ε) with
    | error e => rfl
    | ok within =>
      simp only [bind, Except.bind, foldFieldsWithin]
      rw [List.nil_append, skip_cons rest (show isSpace '}' = false from rfl)]
      simp only [pure, Except.pure]
      cases build.obj [] <;> rfl
  | cons f js =>
    simp only [write, List.length_cons, List.length_append] at hf
    obtain ⟨fuel, rfl⟩ : ∃ n, fuel = n + 1 := ⟨fuel - 1, by omega⟩
    simp only [write, List.cons_append, List.append_assoc, List.nil_append]
    rw [readValue, foldWithin]
    cases limits.enter (ε := ε) with
    | error e => rfl
    | ok within =>
      have hfields := readFields_write within level (level + 1) rest floatless back fuel (by omega)
      rw [text_append] at hfields ⊢
      simp only [bind, Except.bind, skip_newline, skip_cons _ (show isSpace '"' = false from rfl)]
      split
      · next h => exact absurd (List.cons.inj h).1 (by decide)
      · rw [hfields]
        cases foldFieldsWithin build within ((f.1, f.2) :: js) with
        | error e => rfl
        | ok as =>
          simp only [Except.map]
          cases build.obj as <;> rfl

theorem Floatless.readsBack {j : Json} (h : Floatless j) (build : Builder ε α) :
    ReadsBack build j := by
  induction h with
  | null =>
    intro limits level fuel rest hf _
    obtain ⟨fuel, rfl⟩ : ∃ n, fuel = n + 1 := ⟨fuel - 1, by simp [write] at hf; omega⟩
    rw [show write level .null = ['n', 'u', 'l', 'l'] from rfl, List.cons_append,
      readValue_eq_readWord _ _ _ (by simp [openers]), foldWithin]
    simp [readWord, words, after?, Except.map]
  | bool b =>
    intro limits level fuel rest hf _
    have hpos := (Floatless.bool b).length_pos level
    obtain ⟨fuel, rfl⟩ : ∃ n, fuel = n + 1 := ⟨fuel - 1, by omega⟩
    cases b with
    | false =>
      rw [show write level (.bool false) = ['f', 'a', 'l', 's', 'e'] from rfl, List.cons_append,
        readValue_eq_readWord _ _ _ (by simp [openers]), foldWithin]
      simp [readWord, words, after?, Except.map]
    | true =>
      rw [show write level (.bool true) = ['t', 'r', 'u', 'e'] from rfl, List.cons_append,
        readValue_eq_readWord _ _ _ (by simp [openers]), foldWithin]
      simp [readWord, words, after?, Except.map]
  | int n =>
    intro limits level fuel rest hf ends
    have hpos := (Floatless.int n).length_pos level
    obtain ⟨fuel, rfl⟩ : ∃ n, fuel = n + 1 := ⟨fuel - 1, by omega⟩
    rw [write, readValue_integer build limits ends, foldWithin]
    split <;> rfl
  | str s =>
    intro limits level fuel rest hf _
    have hpos := (Floatless.str s).length_pos level
    obtain ⟨fuel, rfl⟩ : ∃ n, fuel = n + 1 := ⟨fuel - 1, by omega⟩
    rw [write, text_append, readValue, textBody_flatMap, foldWithin]
    simp only [Text.ofRunes_runes]
    rfl
  | arr items each ih => exact readsBack_arr each ih
  | obj fields each ih => exact readsBack_obj each ih

/-- The text of a document is read as what is built from the document. -/
theorem read_render {j : Json} (h : Floatless j) (limits : Limits) (build : Builder ε α) :
    read limits build j.render.toList = foldWithin build limits j := by
  have hread := h.readsBack build limits 0 (2 * (write 0 j).length + 2) [] (by omega) .nil
  have hskip := h.skip_write 0 []
  rw [List.append_nil] at hread hskip
  rw [render, String.toList_ofList, read, hskip, hread]
  cases foldWithin build limits j <;> rfl

end Reading

/-! ## Objects -/

theorem put_of_not_mem {α : Type} {key : Text} (a : α) {fields : List (Text × α)}
    (h : key ∉ fields.map Prod.fst) : put key a fields = fields ++ [(key, a)] := by
  induction fields with
  | nil => rfl
  | cons f fields ih =>
    rw [List.map_cons, List.mem_cons, not_or] at h
    rw [put, if_neg (Ne.symm h.1), ih h.2, List.cons_append]

theorem dedup_of_nodup {α : Type} {fields : List (Text × α)} (h : (fields.map Prod.fst).Nodup) :
    dedup fields = fields := by
  -- What has been put so far comes before the rest, and no key of the rest is in it.
  suffices H : ∀ done rest : List (Text × α), ((done ++ rest).map Prod.fst).Nodup →
      rest.foldl (fun acc f => put f.1 f.2 acc) done = done ++ rest from H [] fields h
  intro done rest
  induction rest generalizing done with
  | nil => intro _; rw [List.foldl_nil, List.append_nil]
  | cons f rest ih =>
    intro hn
    have hf : f.1 ∉ done.map Prod.fst := by
      rw [List.map_append, List.map_cons, List.nodup_middle, List.nodup_cons] at hn
      exact fun hm => hn.1 (List.mem_append_left _ hm)
    rw [List.foldl_cons, put_of_not_mem _ hf, ih _ (by simpa using hn), List.append_assoc]
    rfl

/-! ## Legible documents -/

/-- A document within limits that has no floating-point number and no object with a key twice. -/
inductive Legible : Limits → Json → Prop
  | null {limits : Limits} : Legible limits .null
  | bool {limits : Limits} (b : Bool) : Legible limits (.bool b)
  | int {limits : Limits} (n : Int)
      (digits : limits.admits (Text.numeral n.natAbs).length = true) : Legible limits (.int n)
  | str {limits : Limits} (s : Text) : Legible limits (.str s)
  | arr {limits inner : Limits} (items : List Json)
      (enter : limits.enter = (.ok inner : Except (ReadError Empty) Limits))
      (each : ∀ j ∈ items, Legible inner j) : Legible limits (.arr items)
  | obj {limits inner : Limits} (fields : List (Text × Json))
      (enter : limits.enter = (.ok inner : Except (ReadError Empty) Limits))
      (keys : (fields.map Prod.fst).Nodup)
      (each : ∀ f ∈ fields, Legible inner f.2) : Legible limits (.obj fields)

theorem Legible.floatless {limits : Limits} {j : Json} (h : Legible limits j) : Floatless j := by
  induction h with
  | null => exact .null
  | bool b => exact .bool b
  | int n => exact .int n
  | str s => exact .str s
  | arr items _ _ ih => exact .arr items ih
  | obj fields _ _ _ ih => exact .obj fields ih

theorem foldItemsWithin_plain {limits : Limits} {js : List Json}
    (h : ∀ j ∈ js, foldWithin (plain (ε := Empty)) limits j = .ok j) :
    foldItemsWithin (plain (ε := Empty)) limits js = .ok js := by
  induction js with
  | nil => rfl
  | cons j js ih =>
    rw [foldItemsWithin, h j (by simp), ih fun k hk => h k (.tail _ hk)]
    rfl

theorem foldFieldsWithin_plain {limits : Limits} {fields : List (Text × Json)}
    (h : ∀ f ∈ fields, foldWithin (plain (ε := Empty)) limits f.2 = .ok f.2) :
    foldFieldsWithin (plain (ε := Empty)) limits fields = .ok fields := by
  induction fields with
  | nil => rfl
  | cons f fields ih =>
    rw [foldFieldsWithin, h f (by simp), ih fun g hg => h g (.tail _ hg)]
    rfl

theorem Legible.foldWithin_plain {limits : Limits} {j : Json} (h : Legible limits j) :
    foldWithin (plain (ε := Empty)) limits j = .ok j := by
  induction h with
  | null => rfl
  | bool b => rfl
  | int n digits => rw [foldWithin, if_pos digits]; rfl
  | str s => rfl
  | arr items enter _ ih =>
    rw [foldWithin, enter]
    simp only [bind, Except.bind, foldItemsWithin_plain ih]
    rfl
  | obj fields enter keys _ ih =>
    rw [foldWithin, enter]
    simp only [bind, Except.bind, foldFieldsWithin_plain ih]
    exact congrArg (fun fields => Except.ok (Json.obj fields)) (dedup_of_nodup keys)

/-- The text of a legible document is read as that document. -/
theorem parseWithin_render {limits : Limits} {j : Json} (h : Legible limits j) :
    parseWithin limits j.render = some j := by
  rw [parseWithin, read_render h.floatless, h.foldWithin_plain]

end CallAtlas.Json
