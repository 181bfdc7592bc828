import CallAtlas.Text.Lines
import Mathlib.Data.List.DropRight

/-! # Texts as bytes and lines

A text that is read from bytes has characters only, and the bytes are those of its characters one
after the other (`Text.ofUTF8?_eq_some_iff`). So lines between line feeds are the same for the text
and for its bytes (`feedLines_flatMap`, `standsFor_utf8EncodeChar`), and the line around an offset
is found by the number of line feeds before it (`getElem?_feedLines`). The lines of a text, which
end at other line breaks too, are these lines as long as no other line break occurs
(`Text.getElem?_linesFrom`). -/

namespace CallAtlas

/-! ## Bytes of texts -/

theorem extract_eq_toByteArray (data : ByteArray) (i j : Nat) :
    data.extract i j = ((data.data.toList.take j).drop i).toByteArray := by
  apply ByteArray.ext
  rw [ByteArray.data_extract, List.data_toByteArray, List.drop_take, ← List.extract_eq_take_drop,
    ← Array.toList_extract]

theorem toList_utf8Encode (cs : List Char) :
    cs.utf8Encode.data.toList = cs.flatMap String.utf8EncodeChar := by
  rw [List.utf8Encode, List.data_toByteArray]

theorem Text.ofUTF8?_eq_some_iff {data : ByteArray} {t : Text} :
    ofUTF8? data = some t ↔ ∃ cs : List Char, data = cs.utf8Encode ∧ t = ofChars cs := by
  unfold ofUTF8? String.fromUTF8?
  constructor
  · intro h
    split at h
    · next hvalid =>
      refine ⟨(String.fromUTF8 data hvalid).toList, ?_, (Option.some.inj h).symm⟩
      rw [String.utf8Encode_toList]
      rfl
    · cases h
  · rintro ⟨cs, rfl, rfl⟩
    have hvalid : cs.utf8Encode.IsValidUTF8 := ⟨cs, rfl⟩
    have hstring : String.fromUTF8 cs.utf8Encode hvalid = String.ofList cs := by
      rw [← String.toByteArray_inj, String.toByteArray_ofList]
      rfl
    rw [dif_pos hvalid, hstring, Option.map_some, ofString, String.toList_ofList]

theorem Text.ofUTF8?_eq_empty_iff {data : ByteArray} :
    ofUTF8? data = some .empty ↔ data = .empty := by
  rw [ofUTF8?_eq_some_iff]
  constructor
  · rintro ⟨cs, rfl, hcs⟩
    have hnil : cs = [] := List.map_eq_nil_iff.1 (congrArg Text.runes hcs).symm
    rw [hnil]
    rfl
  · rintro rfl
    exact ⟨[], rfl, rfl⟩

theorem Rune.joinPairs_eq_nil_iff {rs : List Rune} : joinPairs rs = [] ↔ rs = [] := by
  fun_cases joinPairs rs <;> simp_all

theorem Text.ofRunes_eq_empty_iff {rs : List Rune} : ofRunes rs = .empty ↔ rs = [] := by
  rw [Text.ext_iff]
  exact Rune.joinPairs_eq_nil_iff

theorem Text.joinLines_eq_nil_iff {ls : List (List Rune)} :
    joinLines ls = [] ↔ ls = [] ∨ ls = [[]] := by
  fun_cases joinLines ls <;> simp_all

/-! ## Lines between line feeds -/

section Feeds

variable {α β : Type} [DecidableEq α] [DecidableEq β]

/-- A line without its last item if that is `cr`. -/
def chomp (cr : α) (line : List α) : List α :=
  if line.getLast? = some cr then line.dropLast else line

/-- The lines of a list whose first line starts with `line`, read backwards. A line ends at `lf`,
and a `cr` before that is no part of it. -/
def feedLinesFrom (lf cr : α) (line : List α) : List α → List (List α)
  | [] => if line.isEmpty then [] else [line.reverse]
  | a :: items =>
    if a = lf then chomp cr line.reverse :: feedLinesFrom lf cr [] items
    else feedLinesFrom lf cr (a :: line) items

/-- The lines of a list where only `lf`, or `cr` and `lf`, ends a line. -/
def feedLines (lf cr : α) (items : List α) : List (List α) := feedLinesFrom lf cr [] items

/-- The items around a position, from the last `lf` before it to the first `lf` from it on, without
a `cr` before that. -/
def lineAround (lf cr : α) (items : List α) (u : Nat) : List α :=
  let line := (items.take u).rtakeWhile (· ≠ lf) ++ (items.drop u).takeWhile (· ≠ lf)
  if lf ∈ items.drop u then chomp cr line else line

variable {lf cr : α} {line items before : List α} {u : Nat}

theorem chomp_concat (cr : α) (line : List α) (a : α) :
    chomp cr (line ++ [a]) = if a = cr then line else line ++ [a] := by
  simp [chomp]

theorem chomp_of_not_mem (h : cr ∉ line) : chomp cr line = line :=
  if_neg fun hlast => h (List.mem_of_getLast? hlast)

theorem takeWhile_append_cons (xs ys : List α) (lf : α) :
    (xs ++ lf :: ys).takeWhile (· ≠ lf) = xs.takeWhile (· ≠ lf) := by
  rw [List.takeWhile_append, List.takeWhile_cons_of_neg (by simp), List.append_nil]
  split
  · next h => exact (List.takeWhile_prefix _).eq_of_length h |>.symm
  · rfl

theorem takeWhile_eq_self (h : lf ∉ items) : items.takeWhile (· ≠ lf) = items := by
  rw [List.takeWhile_eq_self_iff]
  intro a ha
  simpa using fun e : a = lf => h (e ▸ ha)

theorem rtakeWhile_eq_self (h : lf ∉ items) : items.rtakeWhile (· ≠ lf) = items := by
  rw [List.rtakeWhile_eq_self_iff]
  intro a ha
  simpa using fun e : a = lf => h (e ▸ ha)

theorem lineAround_of_not_mem (h : lf ∉ items) (cr : α) (u : Nat) :
    lineAround lf cr items u = items := by
  have htake : lf ∉ items.take u := fun hm => h (List.mem_of_mem_take hm)
  have hdrop : lf ∉ items.drop u := fun hm => h (List.mem_of_mem_drop hm)
  simp only [lineAround, if_neg hdrop, rtakeWhile_eq_self htake, takeWhile_eq_self hdrop,
    List.take_append_drop]

theorem lineAround_first (h : lf ∉ before) (hu : u ≤ before.length) (cr : α) (items : List α) :
    lineAround lf cr (before ++ lf :: items) u = chomp cr before := by
  have htake : lf ∉ before.take u := fun hm => h (List.mem_of_mem_take hm)
  have hdrop : lf ∉ before.drop u := fun hm => h (List.mem_of_mem_drop hm)
  have hmem : lf ∈ before.drop u ++ lf :: items := by simp
  simp only [lineAround, List.take_append_of_le_length hu, List.drop_append_of_le_length hu,
    if_pos hmem, rtakeWhile_eq_self htake, takeWhile_append_cons, takeWhile_eq_self hdrop,
    List.take_append_drop]

omit [DecidableEq α] in
theorem take_later (lf : α) (before items : List α) (u : Nat) :
    (before ++ lf :: items).take (before.length + 1 + u) = before ++ lf :: items.take u := by
  rw [Nat.add_assoc, Nat.add_comm 1, List.take_length_add_append, List.take_succ_cons]

theorem lineAround_later (lf cr : α) (before items : List α) (u : Nat) :
    lineAround lf cr (before ++ lf :: items) (before.length + 1 + u) =
      lineAround lf cr items u := by
  have hdrop : (before ++ lf :: items).drop (before.length + 1 + u) = items.drop u := by
    rw [Nat.add_assoc, Nat.add_comm 1, List.drop_length_add_append, List.drop_succ_cons]
  have hback : (before ++ lf :: items.take u).rtakeWhile (· ≠ lf) =
      (items.take u).rtakeWhile (· ≠ lf) := by
    simp only [List.rtakeWhile, List.reverse_append, List.reverse_cons, List.append_assoc,
      List.singleton_append, takeWhile_append_cons]
  simp only [lineAround, take_later, hdrop, hback]

/-- The line around a position has as many lines before it as there are ends of lines before the
position. -/
theorem getElem?_feedLinesFrom (hline : lf ∉ line.reverse) (hu : u < line.length + items.length) :
    (feedLinesFrom lf cr line items)[((line.reverse ++ items).take u).count lf]? =
      some (lineAround lf cr (line.reverse ++ items) u) := by
  induction items generalizing line u with
  | nil =>
    have hne : line ≠ [] := by rintro rfl; simp at hu
    have hcount : (line.reverse.take u).count lf = 0 :=
      List.count_eq_zero.2 fun hm => hline (List.mem_of_mem_take hm)
    rw [List.append_nil, hcount, lineAround_of_not_mem hline]
    simp [feedLinesFrom, hne]
  | cons a items ih =>
    by_cases ha : a = lf
    · subst ha
      rw [feedLinesFrom, if_pos rfl]
      rcases Nat.lt_or_ge line.length u with hlt | hle
      · -- the position stands in a later line
        obtain ⟨t, rfl⟩ : ∃ t, u = line.reverse.length + 1 + t :=
          ⟨u - (line.length + 1), by simp; omega⟩
        have hcount : ((line.reverse ++ a :: items).take (line.reverse.length + 1 + t)).count a =
            (items.take t).count a + 1 := by
          rw [take_later, List.count_append, List.count_eq_zero.2 hline, List.count_cons_self,
            Nat.zero_add]
        rw [hcount, lineAround_later, List.getElem?_cons_succ]
        exact ih List.not_mem_nil (by simp at hu ⊢; omega)
      · have hu' : u ≤ line.reverse.length := by simpa using hle
        have hcount : ((line.reverse ++ a :: items).take u).count a = 0 := by
          rw [List.take_append_of_le_length hu']
          exact List.count_eq_zero.2 fun hm => hline (List.mem_of_mem_take hm)
        rw [hcount, lineAround_first hline hu']
        rfl
    · have hmem : lf ∉ (a :: line).reverse := by simpa [Ne.symm ha] using hline
      have happend : line.reverse ++ a :: items = (a :: line).reverse ++ items := by simp
      rw [feedLinesFrom, if_neg ha, happend]
      exact ih hmem (by simp at hu ⊢; omega)

theorem getElem?_feedLines (lf cr : α) (hu : u < items.length) :
    (feedLines lf cr items)[(items.take u).count lf]? = some (lineAround lf cr items u) := by
  have hline : lf ∉ ([] : List α).reverse := List.not_mem_nil
  exact getElem?_feedLinesFrom hline (by simpa using hu)

/-- Each number up to that of the ends of lines before a position is the number of those before some
position up to it. -/
theorem exists_count_take {n : Nat} (h : n ≤ (items.take u).count lf) :
    ∃ v ≤ u, (items.take v).count lf = n := by
  induction u with
  | zero => exact ⟨0, Nat.le_refl 0, by simpa using Eq.symm (Nat.le_zero.1 h)⟩
  | succ u ih =>
    by_cases hn : n ≤ (items.take u).count lf
    · obtain ⟨v, hv, hcount⟩ := ih hn
      exact ⟨v, Nat.le_succ_of_le hv, hcount⟩
    · refine ⟨u + 1, Nat.le_refl _, ?_⟩
      have hlast : items[u]?.toList.count lf ≤ 1 :=
        Nat.le_trans List.count_le_length (by cases items[u]? <;> simp)
      rw [List.take_add_one, List.count_append] at h ⊢
      omega

/-! ### Lines of what is encoded -/

/-- `b` stands for `a` and is no part of anything else. -/
def StandsFor (f : α → List β) (a : α) (b : β) : Prop := f a = [b] ∧ ∀ c, b ∈ f c → c = a

variable {f : α → List β} {lf' cr' : β}

theorem chomp_flatMap (hcr : StandsFor f cr cr') (hf : ∀ a, f a ≠ []) (line : List α) :
    chomp cr' (line.flatMap f) = (chomp cr line).flatMap f := by
  rcases List.eq_nil_or_concat' line with rfl | ⟨line, a, rfl⟩
  · rfl
  · rw [chomp_concat, List.flatMap_append, List.flatMap_singleton]
    by_cases ha : a = cr
    · rw [ha, hcr.1, chomp_concat, if_pos rfl, if_pos rfl]
    · -- the last item of what `a` is encoded by is not `cr'`, which stands for `cr` only
      obtain ⟨bs, b, hb⟩ := (List.eq_nil_or_concat' (f a)).resolve_left (hf a)
      have hne : b ≠ cr' := by
        rintro rfl
        exact ha (hcr.2 a (by rw [hb]; simp))
      rw [hb, ← List.append_assoc, chomp_concat, if_neg hne, if_neg ha, List.flatMap_append,
        List.flatMap_singleton, hb, List.append_assoc]

theorem feedLinesFrom_append (line : List α) {xs : List α} (h : lf ∉ xs) (items : List α) :
    feedLinesFrom lf cr line (xs ++ items) = feedLinesFrom lf cr (xs.reverse ++ line) items := by
  induction xs generalizing line with
  | nil => rfl
  | cons a xs ih =>
    rw [List.mem_cons, not_or] at h
    rw [List.cons_append, feedLinesFrom, if_neg (Ne.symm h.1), ih _ h.2, List.reverse_cons,
      List.append_assoc, List.singleton_append]

theorem feedLinesFrom_flatMap (hlf : StandsFor f lf lf') (hcr : StandsFor f cr cr')
    (hf : ∀ a, f a ≠ []) (line items : List α) :
    feedLinesFrom lf' cr' (line.reverse.flatMap f).reverse (items.flatMap f) =
      (feedLinesFrom lf cr line items).map (·.flatMap f) := by
  induction items generalizing line with
  | nil =>
    rw [List.flatMap_nil, feedLinesFrom, feedLinesFrom, List.reverse_reverse]
    cases line with
    | nil => rfl
    | cons a line => simp [hf]
  | cons a items ih =>
    rw [List.flatMap_cons]
    by_cases ha : a = lf
    · rw [ha, hlf.1, List.singleton_append, feedLinesFrom, feedLinesFrom, if_pos rfl, if_pos rfl,
        List.reverse_reverse, chomp_flatMap hcr hf, List.map_cons, ← ih []]
      rfl
    · have hmem : lf' ∉ f a := fun hm => ha (hlf.2 a hm)
      have hline : (f a).reverse ++ (line.reverse.flatMap f).reverse =
          ((a :: line).reverse.flatMap f).reverse := by simp
      rw [feedLinesFrom_append _ hmem, hline, ih (a :: line), feedLinesFrom, if_neg ha]

/-- Lines end at the same items before and after encoding. -/
theorem feedLines_flatMap (hlf : StandsFor f lf lf') (hcr : StandsFor f cr cr')
    (hf : ∀ a, f a ≠ []) (items : List α) :
    feedLines lf' cr' (items.flatMap f) = (feedLines lf cr items).map (·.flatMap f) :=
  feedLinesFrom_flatMap hlf hcr hf [] items

end Feeds

/-- A byte below 128 is a character by itself and no part of another. -/
theorem standsFor_utf8EncodeChar {c : Char} (hc : c.toNat < 128) :
    StandsFor String.utf8EncodeChar c (UInt8.ofNat c.toNat) := by
  have hval : c.val.toNat = c.toNat := rfl
  have hbyte : (UInt8.ofNat c.toNat).toNat = c.toNat := by
    rw [UInt8.toNat_ofNat']
    omega
  refine ⟨?_, fun d hd => ?_⟩
  · rw [String.utf8EncodeChar, if_pos (by omega), hval]
  · rw [String.utf8EncodeChar] at hd
    split at hd
    · have heq := congrArg UInt8.toNat (List.mem_singleton.1 hd)
      rw [hbyte, UInt8.toNat_ofNat'] at heq
      apply Char.toNat_inj.1
      show d.val.toNat = c.toNat
      omega
    all_goals
      -- every byte of a longer character is at least 128
      repeat' split at hd
      all_goals
        simp only [List.mem_cons, List.not_mem_nil, or_false, ← UInt8.toNat_inj, hbyte,
          UInt8.toNat_ofNat'] at hd
        omega

namespace Text

/-! ## Lines at all line breaks -/

/-- What a line holds stands in the text and ends no line. -/
theorem mem_linesFrom {line rs x : List Rune} {r : Rune} (hx : x ∈ linesFrom line rs)
    (hr : r ∈ x) : r ∈ line ∨ r ∈ rs ∧ isLineBreak r = false := by
  fun_induction linesFrom line rs with
  | case1 line h => cases hx
  | case2 line h =>
    obtain rfl := List.mem_singleton.1 hx
    exact .inl (List.mem_reverse.1 hr)
  | case3 line rest ih =>
    rcases List.mem_cons.1 hx with rfl | hx
    · exact .inl (List.mem_reverse.1 hr)
    · obtain ⟨hrest, hbreak⟩ := (ih hx).resolve_left List.not_mem_nil
      exact .inr ⟨.tail _ (.tail _ hrest), hbreak⟩
  | case4 line a rest _ ha ih =>
    rcases List.mem_cons.1 hx with rfl | hx
    · exact .inl (List.mem_reverse.1 hr)
    · obtain ⟨hrest, hbreak⟩ := (ih hx).resolve_left List.not_mem_nil
      exact .inr ⟨.tail _ hrest, hbreak⟩
  | case5 line a rest _ ha ih =>
    rcases ih hx with hline | ⟨hrest, hbreak⟩
    · rcases List.mem_cons.1 hline with rfl | hline
      · exact .inr ⟨.head _, by simpa using ha⟩
      · exact .inl hline
    · exact .inr ⟨.tail _ hrest, hbreak⟩

theorem isLineBreak_newline : isLineBreak '\n' = true := by decide

theorem isLineBreak_return : isLineBreak '\r' = true := by decide

/-- What has been read of a line is in it, the last code point aside, which may be a carriage return
before the line feed. -/
theorem mem_head_feedLinesFrom {line rs : List Rune} {r : Rune} (h : r ∈ line.tail) :
    ∃ x xs, feedLinesFrom (.char '\n') (.char '\r') line rs = x :: xs ∧ r ∈ x := by
  induction rs generalizing line with
  | nil =>
    cases line with
    | nil => cases h
    | cons a line => exact ⟨_, _, rfl, by simp_all⟩
  | cons b rs ih =>
    rw [feedLinesFrom]
    split
    · cases line with
      | nil => cases h
      | cons a line =>
        refine ⟨_, _, rfl, ?_⟩
        rw [List.reverse_cons, chomp_concat]
        split <;> simp_all
    · exact ih (List.mem_of_mem_tail h)

/-- What is read last is in the line as well, unless it is a carriage return before the line
feed. -/
theorem mem_head_of_not_end (line : List Rune) {rs : List Rune} {r : Rune}
    (h : ∀ rest, r = .char '\r' → rs = .char '\n' :: rest → False) :
    ∃ x xs, feedLinesFrom (.char '\n') (.char '\r') (r :: line) rs = x :: xs ∧ r ∈ x := by
  cases rs with
  | nil => exact ⟨_, _, rfl, by simp⟩
  | cons b rs =>
    by_cases hb : b = .char '\n'
    · have hr : r ≠ .char '\r' := fun hr => h rs hr (by rw [hb])
      rw [feedLinesFrom, if_pos hb, List.reverse_cons, chomp_concat, if_neg hr]
      exact ⟨_, _, rfl, by simp⟩
    · rw [feedLinesFrom, if_neg hb]
      exact mem_head_feedLinesFrom (.head _)

/-- As long as nothing in the lines at line feeds ends a line, they are the lines. -/
theorem getElem?_linesFrom {line rs : List Rune} {k : Nat}
    (hline : ∀ r ∈ line, isLineBreak r = false)
    (h : ∀ x ∈ (feedLinesFrom (.char '\n') (.char '\r') line rs).take (k + 1), ∀ r ∈ x,
      isLineBreak r = false) :
    (linesFrom line rs)[k]? = (feedLinesFrom (.char '\n') (.char '\r') line rs)[k]? := by
  fun_induction linesFrom line rs generalizing k with
  | case1 line hempty => rw [feedLinesFrom, if_pos hempty]
  | case2 line hempty => rw [feedLinesFrom, if_neg hempty]
  | case3 line rest ih =>
    -- the carriage return is read into the line and taken from it again
    have hstep : feedLinesFrom (.char '\n') (.char '\r') line (.char '\r' :: .char '\n' :: rest) =
        line.reverse :: feedLinesFrom (.char '\n') (.char '\r') [] rest := by
      rw [feedLinesFrom, if_neg (by decide), feedLinesFrom, if_pos rfl, List.reverse_cons,
        chomp_concat, if_pos rfl]
    rw [hstep] at h ⊢
    cases k with
    | zero => rfl
    | succ k => exact ih (by simp) fun x hx => h x (.tail _ hx)
  | case4 line a rest hnot ha ih =>
    by_cases hfeed : a = .char '\n'
    · have hreturn : .char '\r' ∉ line.reverse := fun hmem =>
        absurd isLineBreak_return (by rw [hline _ (List.mem_reverse.1 hmem)]; decide)
      rw [feedLinesFrom, if_pos hfeed, chomp_of_not_mem hreturn] at h ⊢
      cases k with
      | zero => rfl
      | succ k => exact ih (by simp) fun x hx => h x (.tail _ hx)
    · -- the line break is in the line, which has none
      rw [feedLinesFrom, if_neg hfeed] at h
      obtain ⟨x, xs, hx, hmem⟩ := mem_head_of_not_end line hnot
      rw [hx] at h
      rw [h x (.head _) a hmem] at ha
      cases ha
  | case5 line a rest hnot ha ih =>
    have hfeed : a ≠ .char '\n' := by
      rintro rfl
      exact ha isLineBreak_newline
    rw [feedLinesFrom, if_neg hfeed] at h ⊢
    refine ih (fun r hr => ?_) h
    rcases List.mem_cons.1 hr with rfl | hr
    · simpa using ha
    · exact hline r hr

end Text

end CallAtlas
