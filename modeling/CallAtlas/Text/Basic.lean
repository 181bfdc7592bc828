/-! # Texts

A text is a list of code points. A character beyond the first plane may be written as a pair of
sixteen-bit units; half of such a pair that stands alone is a code point as well, though it is no
character. The two halves of a pair never stand side by side in a text, since together they are a
character. Texts are ordered by their code points. -/

namespace CallAtlas

/-- A code point: a character, or half of a pair that stands alone. -/
inductive Rune where
  | char (c : Char)
  /-- A half, counted from the first of all halves. -/
  | half (n : Fin 2048)
  deriving DecidableEq, Repr

namespace Rune

instance : Coe Char Rune := ⟨.char⟩

instance : Inhabited Rune := ⟨.char ' '⟩

/-- The number of a code point. -/
def code : Rune → Nat
  | .char c => c.toNat
  | .half n => 0xD800 + n.val

/-- The code point of a sixteen-bit unit. -/
def ofUnit (n : Nat) : Rune :=
  if h : 0xD800 ≤ n ∧ n < 0xE000 then .half ⟨n - 0xD800, by omega⟩ else .char (Char.ofNat n)

/-- Whether a code point is half of a pair. -/
def isHalf : Rune → Bool
  | .char _ => false
  | .half _ => true

/-- The character that is shown for a code point; halves are shown as the replacement character. -/
def shown : Rune → Char
  | .char c => c
  | .half _ => Char.ofNat 0xFFFD

end Rune

/-! ## Pairs -/

/-- The character that two code points are together, if they are the halves of a pair. -/
def Rune.pair? : Rune → Rune → Option Char
  | .half a, .half b =>
    if a.val < 1024 ∧ 1024 ≤ b.val then
      some (Char.ofNat (0x10000 + 1024 * a.val + (b.val - 1024)))
    else none
  | _, _ => none

/-- Whether no two neighbours are the halves of a pair. -/
def Rune.areUnpaired : List Rune → Bool
  | a :: b :: rest => (pair? a b).isNone && areUnpaired (b :: rest)
  | _ => true

/-- Code points with the character in place of every pair of halves. -/
def Rune.joinPairs : List Rune → List Rune
  | a :: b :: rest => match pair? a b with
    | some c => .char c :: joinPairs rest
    | none => a :: joinPairs (b :: rest)
  | rs => rs

theorem Rune.pair?_char_right (r : Rune) (c : Char) : pair? r (.char c) = none := by
  cases r <;> rfl

theorem Rune.pair?_char_left (r : Rune) (c : Char) : pair? (.char c) r = none := by
  cases r <;> rfl

/-- The first code point stays, or a character takes its place. -/
theorem Rune.areUnpaired_cons_joinPairs (r : Rune) (rs : List Rune)
    (h : areUnpaired (joinPairs rs) = true) (hr : ∀ a ∈ rs.head?, pair? r a = none) :
    areUnpaired (r :: joinPairs rs) = true := by
  match rs, h, hr with
  | [], _, _ => rfl
  | [a], _, hr => simp [joinPairs, areUnpaired, hr a rfl]
  | a :: b :: rest, h, hr =>
    rw [joinPairs] at h ⊢
    cases hp : pair? a b with
    | some c => simpa [hp, areUnpaired, pair?_char_right] using h
    | none => simpa [hp, areUnpaired, hr a rfl] using h

theorem Rune.areUnpaired_joinPairs (rs : List Rune) : areUnpaired (joinPairs rs) = true := by
  fun_induction joinPairs rs with
  | case1 a b rest c h ih =>
    refine areUnpaired_cons_joinPairs (.char c) rest ih fun r _ => pair?_char_left r c
  | case2 a b rest h ih =>
    exact areUnpaired_cons_joinPairs a (b :: rest) ih fun r hr => by
      rw [List.head?_cons, Option.mem_some] at hr
      rw [← hr, h]
  | case3 rs h =>
    match rs with
    | [] => rfl
    | [_] => rfl
    | a :: b :: rest => exact absurd rfl (h a b rest)

theorem Rune.joinPairs_of_areUnpaired {rs : List Rune} (h : areUnpaired rs = true) :
    joinPairs rs = rs := by
  fun_induction joinPairs rs with
  | case1 a b rest c hp ih => simp [areUnpaired, hp] at h
  | case2 a b rest hp ih =>
    rw [areUnpaired, Bool.and_eq_true] at h
    rw [ih h.2]
  | case3 rs _ => rfl

theorem Rune.areUnpaired_map_char (cs : List Char) : areUnpaired (cs.map .char) = true := by
  induction cs with
  | nil => rfl
  | cons c cs ih =>
    cases cs with
    | nil => rfl
    | cons d cs => simpa [areUnpaired, pair?_char_left] using ih

/-! ## Texts -/

/-- A text. -/
structure Text where
  runes : List Rune
  unpaired : Rune.areUnpaired runes = true
  deriving DecidableEq, Repr

namespace Text

@[ext]
theorem ext {a b : Text} (h : a.runes = b.runes) : a = b := by
  cases a; cases b; cases h; rfl

/-- The text of some code points; halves that make a pair become its character. -/
def ofRunes (rs : List Rune) : Text := ⟨Rune.joinPairs rs, Rune.areUnpaired_joinPairs rs⟩

@[simp]
theorem ofRunes_runes (t : Text) : ofRunes t.runes = t :=
  ext (Rune.joinPairs_of_areUnpaired t.unpaired)

/-- The text of some characters. -/
def ofChars (cs : List Char) : Text := ⟨cs.map .char, Rune.areUnpaired_map_char cs⟩

/-- The text of a string. -/
def ofString (s : String) : Text := ofChars s.toList

instance : Coe String Text := ⟨ofString⟩

/-- The text without code points. -/
def empty : Text := ⟨[], rfl⟩

instance : Inhabited Text := ⟨empty⟩

instance : Append Text := ⟨fun a b => ofRunes (a.runes ++ b.runes)⟩

def isEmpty (t : Text) : Bool := t.runes.isEmpty

/-- Whether a text holds half of a pair. -/
def hasHalf (t : Text) : Bool := t.runes.any Rune.isHalf

/-- A text with the replacement character in place of every half. -/
def shown (t : Text) : String := String.ofList (t.runes.map Rune.shown)

/-- The string of a text, if it holds no half. -/
def toString? (t : Text) : Option String := if t.hasHalf then none else some t.shown

/-- The text that bytes encode. -/
def ofUTF8? (data : ByteArray) : Option Text := (String.fromUTF8? data).map ofString

/-- The code points of texts with a separator between each two. -/
def joinRunes (separator : List Rune) : List Text → List Rune
  | [] => []
  | [t] => t.runes
  | t :: ts => t.runes ++ separator ++ joinRunes separator ts

/-- Texts put together with a separator between each two. -/
def join (separator : Text) (ts : List Text) : Text := ofRunes (joinRunes separator.runes ts)

/-- Whether a text starts with another. -/
def startsWith (t start : Text) : Bool := start.runes.isPrefixOf t.runes

/-- Whether a text ends with another. -/
def endsWith (t stop : Text) : Bool := stop.runes.isSuffixOf t.runes

/-! ## Order -/

/-- Whether one list of code points does not come after another. -/
def runesLe : List Rune → List Rune → Bool
  | [], _ => true
  | _ :: _, [] => false
  | a :: as, b :: bs => if a.code = b.code then runesLe as bs else decide (a.code < b.code)

/-- Whether one text does not come after another. -/
def le (a b : Text) : Bool := runesLe a.runes b.runes

/-- Whether one text comes before another. -/
def lt (a b : Text) : Bool := !b.le a

theorem runesLe_total (as bs : List Rune) : runesLe as bs = true ∨ runesLe bs as = true := by
  induction as generalizing bs with
  | nil => exact .inl rfl
  | cons a as ih =>
    cases bs with
    | nil => exact .inr rfl
    | cons b bs =>
      by_cases h : a.code = b.code
      · simpa [runesLe, h] using ih bs
      · have h' : ¬ b.code = a.code := fun e => h e.symm
        simp only [runesLe, h, h', if_false, decide_eq_true_eq]
        omega

theorem le_total (a b : Text) : a.le b = true ∨ b.le a = true := runesLe_total a.runes b.runes

theorem runesLe_trans {as bs cs : List Rune} (h : runesLe as bs = true)
    (h' : runesLe bs cs = true) : runesLe as cs = true := by
  induction as generalizing bs cs with
  | nil => rfl
  | cons a as ih =>
    cases bs with
    | nil => simp [runesLe] at h
    | cons b bs =>
      cases cs with
      | nil => simp [runesLe] at h'
      | cons c cs =>
        simp only [runesLe] at h h' ⊢
        split at h <;> split at h' <;> split
        · exact ih h h'
        all_goals simp only [decide_eq_true_eq] at *
        all_goals omega

theorem le_trans {a b c : Text} (h : a.le b = true) (h' : b.le c = true) : a.le c = true :=
  runesLe_trans h h'

/-! ## Strings -/

theorem hasHalf_ofString (s : String) : (ofString s).hasHalf = false := by
  simp [ofString, ofChars, hasHalf, Rune.isHalf]

@[simp]
theorem toString?_ofString (s : String) : (ofString s).toString? = some s := by
  rw [toString?, hasHalf_ofString]
  have h : Rune.shown ∘ Rune.char = id := rfl
  simp [shown, ofString, ofChars, h]

theorem ofString_injective {s t : String} (h : ofString s = ofString t) : s = t :=
  Option.some.inj (by rw [← toString?_ofString s, ← toString?_ofString t, h])

end Text

end CallAtlas
