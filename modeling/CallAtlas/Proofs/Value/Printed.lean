import CallAtlas.Proofs.Text.Quoted
import CallAtlas.Value.Normal

/-! # Printed forms tell values apart

`Plain v`: `v` is made of null, integers, texts, lists, and dictionaries with texts as keys. Its
printed form gives away the value and where the form ends, so values that are sorted by their
printed forms come in one order only.

* `Plain.quoted_inj`: plain values of one printed form are equal.
* `sortOn_eq_of_perm`: how items were ordered does not matter once they are sorted. -/

namespace CallAtlas

/-! ## Texts put together -/

namespace Text

theorem hasHalf_eq_false_iff {t : Text} : t.hasHalf = false ↔ ∀ r ∈ t.runes, r.isHalf = false := by
  simp [hasHalf]

theorem hasHalf_of_runes {t : Text} {rs : List Rune} (h : t.runes = rs)
    (hrs : ∀ r ∈ rs, r.isHalf = false) : t.hasHalf = false := by
  rw [hasHalf_eq_false_iff, h]
  exact hrs

theorem hasHalf_ofChars (cs : List Char) : (ofChars cs).hasHalf = false := by
  simp [ofChars, hasHalf, Rune.isHalf]

theorem runes_append {a b : Text} (ha : a.hasHalf = false) (hb : b.hasHalf = false) :
    (a ++ b).runes = a.runes ++ b.runes := by
  refine runes_ofRunes (Rune.areUnpaired_of_forall_char fun r hr => ?_)
  rcases List.mem_append.1 hr with hr | hr
  · exact hasHalf_eq_false_iff.1 ha r hr
  · exact hasHalf_eq_false_iff.1 hb r hr

theorem hasHalf_append {a b : Text} (ha : a.hasHalf = false) (hb : b.hasHalf = false) :
    (a ++ b).hasHalf = false := by
  refine hasHalf_of_runes (runes_append ha hb) fun r hr => ?_
  rcases List.mem_append.1 hr with hr | hr
  · exact hasHalf_eq_false_iff.1 ha r hr
  · exact hasHalf_eq_false_iff.1 hb r hr

theorem joinRunes_cons (separator : List Rune) (t : Text) (ts : List Text) :
    joinRunes separator (t :: ts) =
      t.runes ++ if ts = [] then [] else separator ++ joinRunes separator ts := by
  cases ts with
  | nil => simp [joinRunes]
  | cons u ts => simp [joinRunes]

theorem isHalf_of_mem_joinRunes {separator : List Rune} {ts : List Text}
    (hsep : ∀ r ∈ separator, r.isHalf = false) (hts : ∀ t ∈ ts, t.hasHalf = false) :
    ∀ r ∈ joinRunes separator ts, r.isHalf = false := by
  induction ts with
  | nil => simp [joinRunes]
  | cons t ts ih =>
    intro r hr
    rw [joinRunes_cons] at hr
    rcases List.mem_append.1 hr with hr | hr
    · exact hasHalf_eq_false_iff.1 (hts t (.head _)) r hr
    split at hr
    · cases hr
    · rcases List.mem_append.1 hr with hr | hr
      · exact hsep r hr
      · exact ih (fun u hu => hts u (.tail _ hu)) r hr

end Text

namespace Value

open Text (EndsNumeral)

/-- What stands between the items of a printed list. -/
def comma : List Rune := [.char ',', .char ' ']

theorem runes_commas {ts : List Text} (hts : ∀ t ∈ ts, t.hasHalf = false) :
    (commas ts).runes = Text.joinRunes comma ts ∧ (commas ts).hasHalf = false := by
  have hcomma : ∀ r ∈ comma, r.isHalf = false := by simp [comma, Rune.isHalf]
  have hchars := Text.isHalf_of_mem_joinRunes hcomma hts
  have hrunes : (commas ts).runes = Text.joinRunes comma ts :=
    Text.runes_ofRunes (Rune.areUnpaired_of_forall_char hchars)
  exact ⟨hrunes, Text.hasHalf_of_runes hrunes hchars⟩

/-- What follows an item of a printed list. -/
def afterItem (close : Char) (ts : List Text) (x : List Rune) : List Rune :=
  if ts = [] then .char close :: x else comma ++ (Text.joinRunes comma ts ++ .char close :: x)

theorem joinRunes_cons_append (close : Char) (t : Text) (ts : List Text) (x : List Rune) :
    Text.joinRunes comma (t :: ts) ++ .char close :: x = t.runes ++ afterItem close ts x := by
  rw [Text.joinRunes_cons, afterItem]
  split <;> simp

theorem endsNumeral_afterItem {close : Char} (hdigit : Text.isDigit close = false) (ts : List Text)
    (x : List Rune) : EndsNumeral (afterItem close ts x) := by
  unfold afterItem
  split
  · rintro r ⟨⟩
    exact hdigit
  · rintro r ⟨⟩
    rfl

/-- The items of a printed list are determined, and so is what follows. -/
theorem joinRunes_append_inj {α : Type} {f : α → Text} (close : Char) (hcomma : close ≠ ',')
    (hdigit : Text.isDigit close = false) {as bs : List α}
    (each : ∀ a ∈ as, ∀ b ∈ bs, ∀ x y, EndsNumeral x → EndsNumeral y →
      (f a).runes ++ x = (f b).runes ++ y → a = b ∧ x = y)
    (starts : ∀ a, a ∈ as ∨ a ∈ bs → ∃ r rs, (f a).runes = r :: rs ∧ r ≠ .char close)
    {x y : List Rune}
    (h : Text.joinRunes comma (as.map f) ++ .char close :: x =
      Text.joinRunes comma (bs.map f) ++ .char close :: y) : as = bs ∧ x = y := by
  induction as generalizing bs with
  | nil =>
    cases bs with
    | nil => exact ⟨rfl, (List.cons.inj h).2⟩
    | cons b bs =>
      obtain ⟨r, rs, hb, hr⟩ := starts b (.inr (.head _))
      rw [List.map_cons, Text.joinRunes_cons, hb] at h
      exact absurd (List.cons.inj h).1.symm hr
  | cons a as ih =>
    cases bs with
    | nil =>
      obtain ⟨r, rs, ha, hr⟩ := starts a (.inl (.head _))
      rw [List.map_cons, Text.joinRunes_cons, ha] at h
      exact absurd (List.cons.inj h).1 hr
    | cons b bs =>
      rw [List.map_cons, List.map_cons, joinRunes_cons_append, joinRunes_cons_append] at h
      obtain ⟨rfl, htail⟩ := each a (.head _) b (.head _) _ _ (endsNumeral_afterItem hdigit _ x)
        (endsNumeral_afterItem hdigit _ y) h
      cases as with
      | nil =>
        cases bs with
        | nil => exact ⟨rfl, (List.cons.inj htail).2⟩
        | cons b bs => exact absurd (Rune.char.inj (List.cons.inj htail).1) hcomma
      | cons c as =>
        cases bs with
        | nil => exact absurd (Rune.char.inj (List.cons.inj htail).1).symm hcomma
        | cons b bs =>
          obtain ⟨hitems, hxy⟩ := ih (fun a ha b hb => each a (.tail _ ha) b (.tail _ hb))
            (fun a ha => starts a (ha.imp (.tail _) (.tail _))) (List.append_cancel_left htail)
          exact ⟨by rw [hitems], hxy⟩

/-! ## Plain values -/

/-- The values of the module doc. -/
inductive Plain : Value → Prop
  | null : Plain .null
  | int (n : Int) : Plain (.int n)
  | text (s : Text) : Plain (.text s)
  | list (items : List Value) (each : ∀ v ∈ items, Plain v) : Plain (.list items)
  | table (fields : List (Text × Value)) (each : ∀ f ∈ fields, Plain f.2) : Plain (ofFields fields)

/-- The printed form of a field of a dictionary. -/
def quotedField (f : Text × Value) : Text := f.1.quoted ++ ": " ++ quoted f.2

theorem quotedAll_eq (items : List Value) : quotedAll items = items.map quoted := by
  induction items with
  | nil => rfl
  | cons v vs ih => rw [quotedAll, ih, List.map_cons]

theorem quotedEntries_eq (fields : List (Text × Value)) :
    quotedEntries (fields.map fun f => (.text f.1, f.2)) = fields.map quotedField := by
  induction fields with
  | nil => rfl
  | cons f fields ih =>
    rw [List.map_cons, quotedEntries, ih, List.map_cons, quotedField, quoted]

/-- Printed items between brackets. -/
def bracketed (left right : Char) (ts : List Text) : List Rune :=
  .char left :: (Text.joinRunes comma ts ++ [.char right])

theorem runes_bracketed (left right : String) {o c : Char} (hleft : left.toList = [o])
    (hright : right.toList = [c]) {ts : List Text} (hts : ∀ t ∈ ts, t.hasHalf = false) :
    (left ++ commas ts ++ right : Text).runes = bracketed o c ts ∧
      (left ++ commas ts ++ right : Text).hasHalf = false := by
  obtain ⟨hrunes, hhalf⟩ := runes_commas hts
  have hfront : ((left : Text) ++ commas ts).hasHalf = false :=
    Text.hasHalf_append (Text.hasHalf_ofString left) hhalf
  refine ⟨?_, Text.hasHalf_append hfront (Text.hasHalf_ofString right)⟩
  rw [Text.runes_append hfront (Text.hasHalf_ofString right), Text.runes_ofString_append, hrunes,
    hleft]
  simp [bracketed, Text.ofString, Text.ofChars, hright]

section Runes

variable {items : List Value} {fields : List (Text × Value)}

theorem hasHalf_quotedField {f : Text × Value} (h : (quoted f.2).hasHalf = false) :
    (quotedField f).hasHalf = false :=
  Text.hasHalf_append (Text.hasHalf_append (Text.hasHalf_quoted f.1) (Text.hasHalf_ofString ": ")) h

theorem runes_quotedField {f : Text × Value} (h : (quoted f.2).hasHalf = false) :
    (quotedField f).runes = f.1.quoted.runes ++ .char ':' :: .char ' ' :: (quoted f.2).runes := by
  have hkey := Text.hasHalf_quoted f.1
  have hcolon := Text.hasHalf_ofString ": "
  rw [quotedField, Text.runes_append (Text.hasHalf_append hkey hcolon) h,
    Text.runes_append hkey hcolon, List.append_assoc]
  rfl

theorem runes_list (h : ∀ v ∈ items, (quoted v).hasHalf = false) :
    (quoted (.list items)).runes = bracketed '[' ']' (items.map quoted) ∧
      (quoted (.list items)).hasHalf = false := by
  rw [quoted, quotedAll_eq]
  exact runes_bracketed "[" "]" rfl rfl (List.forall_mem_map.2 h)

theorem runes_table (h : ∀ f ∈ fields, (quoted f.2).hasHalf = false) :
    (quoted (ofFields fields)).runes = bracketed '\x7b' '\x7d' (fields.map quotedField) ∧
      (quoted (ofFields fields)).hasHalf = false := by
  rw [ofFields, quoted, quotedEntries_eq]
  exact runes_bracketed "\x7b" "\x7d" rfl rfl
    (List.forall_mem_map.2 fun f hf => hasHalf_quotedField (h f hf))

end Runes

theorem Plain.hasHalf_quoted {v : Value} (h : Plain v) : (quoted v).hasHalf = false := by
  induction h with
  | null => rfl
  | int n => exact Text.hasHalf_ofChars _
  | text s => exact Text.hasHalf_quoted s
  | list items each ih => exact (runes_list ih).2
  | table fields each ih => exact (runes_table ih).2

/-! ## Reading printed forms -/

/-- The constructor of a plain value, as a number. -/
def shape : Value → Nat
  | .null => 0
  | .int _ => 1
  | .text _ => 2
  | .list _ => 3
  | _ => 4

/-- The constructor that the first code point of a printed form stands for. -/
def shapeOf (r : Rune) : Nat :=
  if r = 'N' then 0
  else if Text.isDigitRune r || r = '-' then 1
  else if r = '\'' || r = '"' then 2
  else if r = '[' then 3
  else if r = '\x7b' then 4
  else 5

theorem Plain.exists_lead {v : Value} (h : Plain v) :
    ∃ r rs, (quoted v).runes = r :: rs ∧ shapeOf r = shape v := by
  cases h with
  | null => exact ⟨_, _, rfl, rfl⟩
  | int n =>
    cases n with
    | ofNat n =>
      obtain ⟨d, ds, hds⟩ := List.exists_cons_of_ne_nil (Text.numeral_ne_nil n)
      have hd : Text.isDigit d = true := Text.isDigit_of_mem_numeral (n := n) (hds ▸ .head _)
      have hN : d ≠ 'N' := by
        rintro rfl
        exact absurd hd (by decide)
      refine ⟨.char d, ds.map .char, congrArg (List.map Rune.char) hds, ?_⟩
      simp [shapeOf, Text.isDigitRune, hd, hN, shape]
    | negSucc n => exact ⟨_, _, rfl, rfl⟩
  | text s =>
    rw [quoted, Text.runes_quoted]
    refine ⟨_, _, rfl, ?_⟩
    rcases Text.Quoted.isQuote_quoteFor s.runes with h | h <;> rw [h] <;> rfl
  | list items each => exact ⟨_, _, (runes_list fun v hv => (each v hv).hasHalf_quoted).1, rfl⟩
  | table fields each => exact ⟨_, _, (runes_table fun f hf => (each f hf).hasHalf_quoted).1, rfl⟩

theorem Plain.lead_ne {v : Value} (h : Plain v) {c : Char} (hc : shapeOf c = 5) :
    ∃ r rs, (quoted v).runes = r :: rs ∧ r ≠ .char c := by
  obtain ⟨r, rs, hr, hshape⟩ := h.exists_lead
  refine ⟨r, rs, hr, ?_⟩
  rintro rfl
  rw [hc] at hshape
  cases h <;> cases hshape

theorem Plain.shape_eq {v w : Value} (hv : Plain v) (hw : Plain w) {x y : List Rune}
    (h : (quoted v).runes ++ x = (quoted w).runes ++ y) : shape v = shape w := by
  obtain ⟨r, rs, hr, hrv⟩ := hv.exists_lead
  obtain ⟨s, ss, hs, hsw⟩ := hw.exists_lead
  rw [hr, hs] at h
  rw [← hrv, ← hsw, (List.cons.inj h).1]

/-- The printed form of a plain value in front of something else tells the value, and what
follows. -/
theorem Plain.quoted_append_inj {v w : Value} (hv : Plain v) (hw : Plain w) {x y : List Rune}
    (hx : EndsNumeral x) (hy : EndsNumeral y) (h : (quoted v).runes ++ x = (quoted w).runes ++ y) :
    v = w ∧ x = y := by
  induction hv generalizing w x y with
  | null =>
    have hshape := Plain.null.shape_eq hw h
    cases hw with
    | null => exact ⟨rfl, List.append_cancel_left h⟩
    | _ => cases hshape
  | int n =>
    have hshape := (Plain.int n).shape_eq hw h
    cases hw with
    | int m =>
      obtain ⟨rfl, hxy⟩ := Text.integer_append_inj hx hy h
      exact ⟨rfl, hxy⟩
    | _ => cases hshape
  | text s =>
    have hshape := (Plain.text s).shape_eq hw h
    cases hw with
    | text t =>
      obtain ⟨rfl, hxy⟩ := Text.quoted_append_inj h
      exact ⟨rfl, hxy⟩
    | _ => cases hshape
  | list items each ih =>
    have hshape := (Plain.list items each).shape_eq hw h
    cases hw with
    | list others each' =>
      rw [(runes_list fun v hv => (each v hv).hasHalf_quoted).1,
        (runes_list fun v hv => (each' v hv).hasHalf_quoted).1] at h
      simp only [bracketed, List.cons_append, List.append_assoc, List.nil_append] at h
      obtain ⟨rfl, hxy⟩ := joinRunes_append_inj ']' (by decide) (by decide)
        (fun a ha b hb x y => ih a ha (each' b hb))
        (fun a ha => (ha.elim (each a) (each' a)).lead_ne (by decide)) (List.cons.inj h).2
      exact ⟨rfl, hxy⟩
    | _ => cases hshape
  | table fields each ih =>
    have hshape := (Plain.table fields each).shape_eq hw h
    cases hw with
    | table others each' =>
      have hhalf := fun f hf => (each f hf).hasHalf_quoted
      have hhalf' := fun f hf => (each' f hf).hasHalf_quoted
      rw [(runes_table hhalf).1, (runes_table hhalf').1] at h
      simp only [bracketed, List.cons_append, List.append_assoc, List.nil_append] at h
      have hfields : ∀ a ∈ fields, ∀ b ∈ others, ∀ x y, EndsNumeral x → EndsNumeral y →
          (quotedField a).runes ++ x = (quotedField b).runes ++ y → a = b ∧ x = y := by
        intro a ha b hb x y hx hy hab
        rw [runes_quotedField (hhalf a ha), runes_quotedField (hhalf' b hb), List.append_assoc,
          List.append_assoc] at hab
        obtain ⟨hkey, hrest⟩ := Text.quoted_append_inj hab
        obtain ⟨hvalue, hxy⟩ := ih a ha (each' b hb) hx hy (List.cons.inj (List.cons.inj hrest).2).2
        exact ⟨Prod.ext hkey hvalue, hxy⟩
      have hstarts : ∀ a, a ∈ fields ∨ a ∈ others →
          ∃ r rs, (quotedField a).runes = r :: rs ∧ r ≠ .char '\x7d' := by
        intro a ha
        obtain ⟨r, rs, hr, hne⟩ := (Plain.text a.1).lead_ne (c := '\x7d') (by decide)
        rw [runes_quotedField (ha.elim (hhalf a) (hhalf' a))]
        exact ⟨r, _, by rw [show a.1.quoted.runes = r :: rs from hr]; rfl, hne⟩
      obtain ⟨rfl, hxy⟩ := joinRunes_append_inj '\x7d' (by decide) (by decide) hfields
        hstarts (List.cons.inj h).2
      exact ⟨rfl, hxy⟩
    | _ => cases hshape

theorem Plain.quoted_inj {v w : Value} (hv : Plain v) (hw : Plain w) (h : quoted v = quoted w) :
    v = w :=
  (hv.quoted_append_inj hw (x := []) (y := []) nofun nofun (by rw [h])).1

/-! ## Order -/

theorem sortOn_perm {α : Type} (key : α → Text) (items : List α) :
    (sortOn key items).Perm items := by
  have hsort := (List.mergeSort_perm (items.map fun a => (key a, a)) keyBefore).map Prod.snd
  rwa [List.map_map, show Prod.snd ∘ (fun a => (key a, a)) = id from rfl, List.map_id] at hsort

theorem keyBefore_trans {α : Type} {a b c : Text × α} (h : keyBefore a b = true)
    (h' : keyBefore b c = true) : keyBefore a c = true :=
  Text.le_trans h h'

theorem keyBefore_total {α : Type} (a b : Text × α) : (keyBefore a b || keyBefore b a) = true := by
  rw [Bool.or_eq_true]
  exact Text.le_total a.1 b.1

theorem sortOn_eq_of_perm {α : Type} {key : α → Text} {as bs : List α} (h : as.Perm bs)
    (hkey : ∀ a ∈ as, ∀ b ∈ as, key a = key b → a = b) : sortOn key as = sortOn key bs := by
  have hpairwise (items : List α) :
      ((items.map fun a => (key a, a)).mergeSort keyBefore).Pairwise
        fun a b => keyBefore a b = true := by
    apply List.pairwise_mergeSort
    · exact fun a b c hab hbc => keyBefore_trans hab hbc
    · exact keyBefore_total
  have hperm : ((as.map fun a => (key a, a)).mergeSort keyBefore).Perm
      ((bs.map fun a => (key a, a)).mergeSort keyBefore) :=
    (List.mergeSort_perm _ _).trans ((h.map _).trans (List.mergeSort_perm _ _).symm)
  refine congrArg (List.map Prod.snd) (hperm.eq_of_pairwise ?_ (hpairwise as) (hpairwise bs))
  intro p q hp hq hle hge
  obtain ⟨a, ha, rfl⟩ := List.mem_map.1 ((List.mergeSort_perm _ _).mem_iff.1 hp)
  obtain ⟨b, hb, rfl⟩ := List.mem_map.1 ((List.mergeSort_perm _ _).mem_iff.1 hq)
  have hab : key a = key b := Text.le_antisymm hle hge
  rw [hkey a ha b (h.mem_iff.2 hb) hab]

end Value

end CallAtlas
