import CallAtlas.Proofs.Fetch.Windows
import CallAtlas.Source.Text

/-! # Line numbers

A place gives the number of its line by the line feeds before it (`lineNumber`), but a fetch counts
lines at every line break. So what is fetched by the number of a place is the line of the place only
if no line up to there holds another line break.

* `fetched_line_iff`: up to an offset, every line that is fetched by its number is the one that
  stands there iff nothing in these lines ends a line but the line feeds between them. -/

namespace CallAtlas

/-- The number of line feeds before an offset. -/
def feedsBefore (data : ByteArray) (u : Nat) : Nat := (data.data.toList.take u).count 10

/-- The number of the line that an offset stands in, where line feeds end lines. -/
def lineNumber (data : ByteArray) (u : Nat) : Int := feedsBefore data u + 1

/-- The bytes of the line that an offset stands in, without the line feed, or the carriage return
and line feed, that ends it. -/
def lineBytes (data : ByteArray) (u : Nat) : ByteArray :=
  (lineAround 10 13 data.data.toList u).toByteArray

namespace Source

theorem foldl_pass_fst (bytes : List UInt8) (count : Nat × Nat) :
    (bytes.foldl pass count).1 = count.1 + bytes.count 10 := by
  induction bytes generalizing count with
  | nil => rfl
  | cons b bytes ih =>
    rw [List.foldl_cons, ih, pass, List.count_cons]
    by_cases hb : b = 10
    · simp [hb]
      omega
    · simp [hb]

theorem point_fst (s : Source) (u : Nat) : (s.point u).1 = feedsBefore s.bytes u := by
  have hslice : (s.slice 0 u).data.toList = s.bytes.data.toList.take u := by
    have h0 : cut s.bytes.size 0 = 0 := by simp [cut]
    have hu : cut s.bytes.size u = min u s.bytes.data.toList.length := cut_ofNat _ _
    rw [slice, extract_eq_toByteArray, List.data_toByteArray, h0, hu, List.drop_zero,
      ← List.take_eq_take_min]
  have hrow : ((s.slice 0 u).data.foldl pass (0, 0)).1 = feedsBefore s.bytes u := by
    rw [← Array.foldl_toList, foldl_pass_fst, hslice, Nat.zero_add, feedsBefore]
  unfold point
  exact congrArg Int.ofNat hrow

/-- The line of a place is the one that its start stands in. -/
theorem startLine_place (s : Source) {t : Tree} {u : Nat} (h : t.start = u) :
    (s.place t).startLine = lineNumber s.bytes u := by
  have hrow : (s.place t).startLine = (s.point t.start).1 + 1 := by
    unfold place
    rcases s.point t.start with ⟨row, column⟩
    rcases s.point t.stop with ⟨row', column'⟩
    rfl
  rw [hrow, h, point_fst, lineNumber]

end Source

namespace Fetch

variable {fs : Files} {cache : Cache} {p : Path} {u : Nat} {cs : List Char}

/-- The line that an offset stands in is a line of the text. -/
theorem exists_lineBytes (hu : u < cs.utf8Encode.size) :
    ∃ x, (feedLines '\n' '\r' cs)[feedsBefore cs.utf8Encode u]? = some x ∧
      decode (lineBytes cs.utf8Encode u) = .ok (.ofChars x) := by
  have hlf : StandsFor String.utf8EncodeChar '\n' 10 := standsFor_utf8EncodeChar (by decide)
  have hcr : StandsFor String.utf8EncodeChar '\r' 13 := standsFor_utf8EncodeChar (by decide)
  have hsize : u < cs.utf8Encode.data.toList.length := hu
  have hline := getElem?_feedLines 10 13 hsize
  rw [toList_utf8Encode, feedLines_flatMap hlf hcr fun _ => String.utf8EncodeChar_ne_nil,
    List.getElem?_map] at hline
  obtain ⟨x, hx, hbytes⟩ := Option.map_eq_some_iff.1 hline
  rw [← toList_utf8Encode] at hx
  refine ⟨x, hx, decode_eq_ok_iff.2 (Text.ofUTF8?_eq_some_iff.2 ⟨x, ?_, rfl⟩)⟩
  rw [lineBytes, toList_utf8Encode, ← hbytes]
  rfl

/-- A line of a text of characters has characters only, and none of them ends a line. -/
theorem exists_chars (cs : List Char) (k : Nat) :
    ∃ ds : List Char, (Text.lines (cs.map .char))[k]?.getD [] = ds.map .char ∧
      ∀ c ∈ ds, Text.isLineBreak c = false := by
  cases hx : (Text.lines (cs.map .char))[k]? with
  | none => exact ⟨[], rfl, by simp⟩
  | some x =>
    have hmem : ∀ r ∈ x, r ∈ cs.map Rune.char ∧ Text.isLineBreak r = false := fun r hr =>
      (Text.mem_linesFrom (List.mem_of_getElem? hx) hr).resolve_left List.not_mem_nil
    have hshown : ∀ r ∈ x, Rune.char r.shown = r := by
      intro r hr
      obtain ⟨c, -, rfl⟩ := List.mem_map.1 (hmem r hr).1
      rfl
    refine ⟨x.map Rune.shown, ?_, ?_⟩
    · rw [Option.getD_some, List.map_map]
      exact (List.map_id x).symm.trans (List.map_congr_left fun r hr => (hshown r hr).symm)
    · intro c hc
      obtain ⟨r, hr, rfl⟩ := List.mem_map.1 hc
      rw [hshown r hr]
      exact (hmem r hr).2

theorem linesAsked_single (content : Text) (k : Nat) :
    linesAsked content (k + 1) (k + 1) = (Text.lines content.runes)[k]?.toList := by
  have hstart : ((k : Int) + 1 - 1).toNat = k := by omega
  have hstop : ((k : Int) + 1 + 1 - 1).toNat = k + 1 := by omega
  rw [linesAsked, inRange_eq, hstart, hstop, List.drop_take, Nat.add_sub_cancel_left,
    List.take_one, List.head?_drop]

/-- The line that is fetched by the number of an offset has as many lines before it as there are
line feeds before the offset. -/
theorem lines_lineNumber (hdata : (bytes fs cache p).2 = .ok cs.utf8Encode) {ds : List Char}
    (hds : (Text.lines (cs.map .char))[feedsBefore cs.utf8Encode u]?.getD [] = ds.map .char) :
    (lines fs cache p (lineNumber cs.utf8Encode u) (lineNumber cs.utf8Encode u)).2.answer =
      .ok (.ofChars ds) := by
  have hcontent := Text.ofUTF8?_eq_some_iff.2 ⟨cs, rfl, rfl⟩
  have hpos : 0 ≤ lineNumber cs.utf8Encode u := by
    rw [lineNumber]
    omega
  have hjoin : ∀ line : Option (List Rune), Text.joinLines line.toList = line.getD [] := by
    intro line
    cases line <;> rfl
  have hrunes : (Text.lines (Text.ofChars cs).runes)[feedsBefore cs.utf8Encode u]?.getD [] =
      (Text.ofChars ds).runes := hds
  rw [lines_answer hdata hcontent (Int.le_refl _), lineWindow_eq, if_pos hpos, lineNumber,
    linesAsked_single, hjoin, hrunes, Text.ofRunes_runes]

/-- The lines up to an offset are the lines of the text if nothing in them ends a line. -/
theorem getElem?_lines (hu : u < cs.utf8Encode.size)
    (h : ∀ v ≤ u, ∃ t, decode (lineBytes cs.utf8Encode v) = .ok t ∧
      ∀ r ∈ t.runes, Text.isLineBreak r = false) :
    (Text.lines (cs.map .char))[feedsBefore cs.utf8Encode u]? =
      ((feedLines '\n' '\r' cs)[feedsBefore cs.utf8Encode u]?).map (·.map .char) := by
  have hchars : feedLines (.char '\n') (.char '\r') (cs.map Rune.char) =
      (feedLines '\n' '\r' cs).map (·.map .char) := by
    have hlf : StandsFor (fun c => [Rune.char c]) '\n' (.char '\n') := ⟨rfl, by simp⟩
    have hcr : StandsFor (fun c => [Rune.char c]) '\r' (.char '\r') := ⟨rfl, by simp⟩
    have hmap := feedLines_flatMap hlf hcr (by simp) cs
    simpa only [← List.map_eq_flatMap] using hmap
  rw [← List.getElem?_map, ← hchars]
  refine Text.getElem?_linesFrom (by simp) fun y hy r hr => ?_
  -- every line up to there stands around some offset up to `u`
  have hy' : y ∈ ((feedLines '\n' '\r' cs).map (·.map Rune.char)).take
      (feedsBefore cs.utf8Encode u + 1) := hchars ▸ hy
  rw [← List.map_take] at hy'
  obtain ⟨z, hz, rfl⟩ := List.mem_map.1 hy'
  obtain ⟨i, hi⟩ := List.mem_iff_getElem?.1 hz
  rw [List.getElem?_take] at hi
  split at hi
  · next hlt =>
    obtain ⟨v, hv, hcount⟩ := exists_count_take (Nat.le_of_lt_succ hlt)
    obtain ⟨x, hx, hline⟩ := exists_lineBytes (Nat.lt_of_le_of_lt hv hu)
    obtain ⟨t, ht, hunbroken⟩ := h v hv
    rw [feedsBefore, hcount, hi] at hx
    obtain rfl := Option.some.inj hx
    obtain rfl := Except.ok.inj (hline.symm.trans ht)
    exact hunbroken r hr
  · cases hi

/-- `Source.place` has the number of a line by the line feeds before it (`lineNumber`). Up to an
offset, the line that `lines` fetches by such a number is the one with the offset, without the line
feed that ends it (`lineBytes`), iff no line up to there holds another line break
(`Text.isLineBreak`). -/
theorem fetched_line_iff {data : ByteArray} {content : Text} {s : Nat}
    (hdata : (bytes fs cache p).2 = .ok data) (hcontent : Text.ofUTF8? data = some content)
    (hs : s < data.size) :
    (∀ u ≤ s, ∀ (file : Path) (t : Tree), t.start = u →
      (Source.place ⟨file, data⟩ t).startLine = lineNumber data u) ∧
    ((∀ u ≤ s, (lines fs cache p (lineNumber data u) (lineNumber data u)).2.answer =
        decode (lineBytes data u)) ↔
      ∀ u ≤ s, ∃ t, decode (lineBytes data u) = .ok t ∧
        ∀ r ∈ t.runes, Text.isLineBreak r = false) := by
  obtain ⟨cs, rfl, -⟩ := Text.ofUTF8?_eq_some_iff.1 hcontent
  refine ⟨fun u _ file t ht => Source.startLine_place ⟨file, cs.utf8Encode⟩ ht, ?_, ?_⟩
  · intro h u hu
    obtain ⟨ds, hds, hunbroken⟩ := exists_chars cs (feedsBefore cs.utf8Encode u)
    refine ⟨.ofChars ds, (h u hu).symm.trans (lines_lineNumber hdata hds), fun r hr => ?_⟩
    obtain ⟨c, hc, rfl⟩ := List.mem_map.1 hr
    exact hunbroken c hc
  · intro h u hu
    have hsize : u < cs.utf8Encode.size := Nat.lt_of_le_of_lt hu hs
    obtain ⟨x, hx, hline⟩ := exists_lineBytes hsize
    have hlines := getElem?_lines hsize fun v hv => h v (Nat.le_trans hv hu)
    rw [hx] at hlines
    rw [hline]
    exact lines_lineNumber hdata (by rw [hlines]; rfl)

/-- A file with a function below a line that holds a form feed. -/
def formFeed : ByteArray := "\x0c\ndef f():\n    pass\n".toUTF8

/-- The tree with this file. -/
def formFeedFiles : Files :=
  ((Files.empty []).after ((Files.empty []).write (.ofText "m.py") (.bytes formFeed))).1

/-- The function stands in the second line, but the second line that is fetched is empty. -/
theorem fetched_line_iff_formFeed :
    (bytes formFeedFiles .empty (.ofText "m.py")).2 = .ok formFeed ∧
    Text.ofUTF8? formFeed = some (Text.ofString "\x0c\ndef f():\n    pass\n") ∧
    2 < formFeed.size ∧
    (Source.place ⟨.ofText "m.py", formFeed⟩ (.node "function_definition" 2 19 none [])).startLine
      = 2 ∧
    decode (lineBytes formFeed 2) = .ok "def f():" ∧
    (lines formFeedFiles .empty (.ofText "m.py") 2 2).2.answer = .ok "" ∧
    ¬ ∀ u ≤ 2, (lines formFeedFiles .empty (.ofText "m.py") (lineNumber formFeed u)
      (lineNumber formFeed u)).2.answer = decode (lineBytes formFeed u) := by
  have hdata : (bytes formFeedFiles .empty (.ofText "m.py")).2 = .ok formFeed :=
    ok_of_toOption (by decide +kernel)
  have hcontent : Text.ofUTF8? formFeed =
      some (Text.ofString "\x0c\ndef f():\n    pass\n") := by decide +kernel
  have hs : 2 < formFeed.size := by decide +kernel
  obtain ⟨hplace, hiff⟩ := fetched_line_iff hdata hcontent hs
  have hline : (Source.place ⟨.ofText "m.py", formFeed⟩
      (.node "function_definition" 2 19 none [])).startLine = lineNumber formFeed 2 :=
    hplace 2 (Nat.le_refl 2) _ _ rfl
  have hnumber : lineNumber formFeed 2 = 2 := by decide +kernel
  refine ⟨hdata, hcontent, hs, hline.trans hnumber, decode_eq_ok_iff.2 (by decide +kernel), ?_, ?_⟩
  · rw [lines_answer hdata hcontent (by decide)]
    exact congrArg Except.ok (by decide +kernel)
  · rw [hiff]
    intro h
    obtain ⟨t, ht, hunbroken⟩ := h 0 (by decide)
    have hfirst : decode (lineBytes formFeed 0) = .ok "\x0c" :=
      decode_eq_ok_iff.2 (by decide +kernel)
    obtain rfl := Except.ok.inj (hfirst.symm.trans ht)
    exact absurd (hunbroken _ (.head _)) (by decide)

end Fetch

end CallAtlas
