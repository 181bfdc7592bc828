import CallAtlas.Fetch
import CallAtlas.Proofs.Outcome
import CallAtlas.Proofs.Text.Lines

/-! # Windows of files

What a fetch is asked for are the lines, or the bytes, whose numbers lie in a range (`inRange`). An
end that lies before the file counts from the end of the file instead, so that the file less its
last lines, or bytes, is answered in place of nothing (`window_clipped`).

* `fetched_asked_iff`: a fetch answers what it was asked for iff its range does not end before the
  file, or ends so far before it that nothing is left to answer. -/

namespace CallAtlas

/-! ## Ranges of lists -/

/-- The items whose numbers are at least `start` and below `stop`, where the first item has the
number `first`. -/
def inRange {α : Type} (first start stop : Int) : List α → List α
  | [] => []
  | a :: items =>
    if start ≤ first ∧ first < stop then a :: inRange (first + 1) start stop items
    else inRange (first + 1) start stop items

variable {α : Type}

theorem inRange_eq (first start stop : Int) (items : List α) :
    inRange first start stop items =
      (items.take (stop - first).toNat).drop (start - first).toNat := by
  induction items generalizing first with
  | nil => simp [inRange]
  | cons a items ih =>
    rw [inRange, ih]
    by_cases hstop : first < stop
    · have hs : (stop - first).toNat = (stop - (first + 1)).toNat + 1 := by omega
      rw [hs, List.take_succ_cons]
      by_cases hstart : start ≤ first
      · have h : (start - first).toNat = 0 := by omega
        have h' : (start - (first + 1)).toNat = 0 := by omega
        rw [if_pos ⟨hstart, hstop⟩, h, h']
        rfl
      · have h : (start - first).toNat = (start - (first + 1)).toNat + 1 := by omega
        rw [if_neg fun hr => hstart hr.1, h, List.drop_succ_cons]
    · have h : (stop - first).toNat = 0 := by omega
      have h' : (stop - (first + 1)).toNat = 0 := by omega
      rw [if_neg fun hr => hstop hr.2, h, h', List.take_zero, List.take_zero, List.drop_nil,
        List.drop_nil]

theorem inRange_of_le {first stop : Int} (h : stop ≤ first) (start : Int) (items : List α) :
    inRange first start stop items = [] := by
  have h0 : (stop - first).toNat = 0 := by omega
  rw [inRange_eq, h0, List.take_zero, List.drop_nil]

/-- A range that starts before a list is cut down to it. An end before the list is not, and counts
from the end of the list. -/
theorem window_clipped (first start stop : Int) (items : List α) :
    window items (some (max start first - first))
        (some (min (stop - first) (Int.ofNat items.length))) =
      if first ≤ stop then inRange first start stop items
      else (items.take (items.length + (stop - first)).toNat).drop (start - first).toNat := by
  have hstart : cut items.length (max start first - first) =
      min (start - first).toNat items.length := by
    rw [cut, if_neg (by omega)]
    omega
  have hdrop : ∀ k, (items.take k).drop (min (start - first).toNat items.length) =
      (items.take k).drop (start - first).toNat := by
    intro k
    have hk : (items.take k).length ≤ items.length := List.length_take_le' k items
    rcases Nat.le_total (start - first).toNat items.length with h | h
    · rw [Nat.min_eq_left h]
    · rw [Nat.min_eq_right h, List.drop_of_length_le hk, List.drop_of_length_le (Nat.le_trans hk h)]
  simp only [window, Option.elim_some, hstart, hdrop]
  split
  · next hstop =>
    have hcut : cut items.length (min (stop - first) (Int.ofNat items.length)) =
        min (stop - first).toNat items.length := by
      rw [Int.ofNat_eq_natCast, cut, if_neg (by omega)]
      omega
    rw [hcut, ← List.take_eq_take_min, inRange_eq]
  · next hstop =>
    have hcut : cut items.length (min (stop - first) (Int.ofNat items.length)) =
        (items.length + (stop - first)).toNat := by
      rw [Int.ofNat_eq_natCast, cut, if_pos (by omega)]
      omega
    rw [hcut]

namespace Fetch

open Text (joinLines)

variable {fs : Files} {cache : Cache} {p : Path} {data : ByteArray} {content : Text}
  {start stop : Int}

/-! ## What is asked for -/

/-- The lines with the numbers from `start` to `stop`, which count from one. -/
def linesAsked (content : Text) (start stop : Int) : List (List Rune) :=
  inRange 1 start (stop + 1) (Text.lines content.runes)

/-- The bytes with the offsets from `start` up to `stop`. -/
def bytesAsked (data : ByteArray) (start stop : Int) : ByteArray :=
  (inRange 0 start stop data.data.toList).toByteArray

/-! ## What is answered -/

theorem lineWindow_eq (content : Text) (start stop : Int) :
    lineWindow content start stop = .ofRunes (joinLines
      (if 0 ≤ stop then linesAsked content start stop
      else ((Text.lines content.runes).take ((Text.lines content.runes).length + stop).toNat).drop
        (start - 1).toNat)) := by
  have h := window_clipped 1 start (stop + 1) (Text.lines content.runes)
  have hstop : (1 ≤ stop + 1) = (0 ≤ stop) := propext (by omega)
  rw [Int.add_sub_cancel] at h
  rw [lineWindow, h]
  simp only [linesAsked, hstop]

theorem byteWindow_eq (data : ByteArray) (start stop : Int) :
    byteWindow data start stop =
      if 0 ≤ stop then bytesAsked data start stop
      else data.extract start.toNat (data.size + stop).toNat := by
  have h := window_clipped 0 start stop data.data.toList
  simp only [Int.sub_zero] at h
  have hwindow : byteWindow data start stop = (window data.data.toList (some (max start 0))
      (some (min stop (Int.ofNat data.data.toList.length)))).toByteArray :=
    extract_eq_toByteArray data _ _
  rw [hwindow, h]
  split
  · rfl
  · exact (extract_eq_toByteArray data _ _).symm

theorem lines_answer (hdata : (bytes fs cache p).2 = .ok data)
    (hcontent : Text.ofUTF8? data = some content) (h : start ≤ stop) :
    (lines fs cache p start stop).2.answer = .ok (lineWindow content start stop) := by
  rw [lines, if_neg (Int.not_lt.2 h), text]
  rcases hbytes : bytes fs cache p with ⟨cache', answer⟩
  rw [hbytes] at hdata
  obtain rfl : answer = .ok data := hdata
  simp only [decode, hcontent]

theorem byteRange_answer (hdata : (bytes fs cache p).2 = .ok data) (h : start ≤ stop) :
    (byteRange fs cache p start stop).2.answer = decode (byteWindow data start stop) := by
  rw [byteRange, if_neg (Int.not_lt.2 h)]
  rcases hbytes : bytes fs cache p with ⟨cache', answer⟩
  rw [hbytes] at hdata
  obtain rfl : answer = .ok data := hdata
  dsimp only

theorem decode_eq_ok_iff {t : Text} : decode data = .ok t ↔ Text.ofUTF8? data = some t := by
  unfold decode
  split <;> simp_all

/-! ## Ranges that end before the file -/

theorem lineWindow_of_neg (content : Text) (h : start ≤ stop) (hstop : stop < 0) :
    lineWindow content start stop = .ofRunes (joinLines
      ((Text.lines content.runes).take ((Text.lines content.runes).length + stop).toNat)) := by
  have h0 : (start - 1).toNat = 0 := by omega
  rw [lineWindow_eq, if_neg (Int.not_le.2 hstop), h0, List.drop_zero]

theorem byteWindow_of_neg (data : ByteArray) (h : start ≤ stop) (hstop : stop < 0) :
    byteWindow data start stop = data.extract 0 (data.size + stop).toNat := by
  have h0 : start.toNat = 0 := by omega
  rw [byteWindow_eq, if_neg (Int.not_le.2 hstop), h0]

/-- Some of the first lines together are nothing iff they are none, or one empty line. -/
theorem joinLines_take_eq_nil_iff (ls : List (List Rune)) (hstop : stop < 0) :
    joinLines (ls.take (ls.length + stop).toNat) = [] ↔
      ls.length + stop ≤ 0 ∨ ls.length + stop = 1 ∧ ls.head? = some [] := by
  rw [Text.joinLines_eq_nil_iff]
  rcases hk : (ls.length + stop).toNat with _ | k
  · have hle : ls.length + stop ≤ 0 := by omega
    simp [hle]
  · have hgt : ¬ ls.length + stop ≤ 0 := by omega
    cases ls with
    | nil => simp at hgt; omega
    | cons l ls =>
      have hk1 : (l :: ls).length + stop = 1 ↔ k = 0 := by omega
      have hls : ls = [] → k = 0 := by rintro rfl; simp at hk; omega
      simp only [hgt, hk1, List.take_succ_cons, List.head?_cons, List.cons.injEq,
        List.take_eq_nil_iff, Option.some.injEq, reduceCtorEq, false_or]
      grind

theorem lines_asked_iff (content : Text) (h : start ≤ stop) :
    lineWindow content start stop = .ofRunes (joinLines (linesAsked content start stop)) ↔
      0 ≤ stop ∨ (Text.lines content.runes).length + stop ≤ 0 ∨
        (Text.lines content.runes).length + stop = 1 ∧
          (Text.lines content.runes).head? = some [] := by
  by_cases hstop : 0 ≤ stop
  · rw [lineWindow_eq, if_pos hstop]
    simp [hstop]
  · have hnone : linesAsked content start stop = [] := inRange_of_le (by omega) ..
    rw [lineWindow_of_neg content h (Int.not_le.1 hstop), hnone, joinLines,
      show Text.ofRunes [] = .empty from rfl, Text.ofRunes_eq_empty_iff,
      joinLines_take_eq_nil_iff _ (Int.not_le.1 hstop)]
    simp [hstop]

theorem bytes_asked_iff (data : ByteArray) (h : start ≤ stop) :
    decode (byteWindow data start stop) = decode (bytesAsked data start stop) ↔
      0 ≤ stop ∨ data.size + stop ≤ 0 := by
  by_cases hstop : 0 ≤ stop
  · rw [byteWindow_eq, if_pos hstop]
    simp [hstop]
  · have hnone : bytesAsked data start stop = .empty := by
      rw [bytesAsked, inRange_of_le (Int.le_of_lt (Int.not_le.1 hstop))]
      rfl
    have hempty : decode .empty = .ok .empty := decode_eq_ok_iff.2 (Text.ofUTF8?_eq_empty_iff.2 rfl)
    rw [byteWindow_of_neg data h (Int.not_le.1 hstop), hnone, hempty, decode_eq_ok_iff,
      Text.ofUTF8?_eq_empty_iff, ← ByteArray.size_eq_zero_iff, ByteArray.size_extract]
    simp only [hstop, false_or]
    omega

/-- `lines` answers the `linesAsked`, and `byteRange` the `bytesAsked`, iff the range does not end
before the file or leaves nothing to answer. Where it ends before the file, the answer is the file
without as many lines, or bytes, at its end. -/
theorem fetched_asked_iff (hdata : (bytes fs cache p).2 = .ok data)
    (hcontent : Text.ofUTF8? data = some content) (h : start ≤ stop) :
    ((lines fs cache p start stop).2.answer =
        .ok (.ofRunes (joinLines (linesAsked content start stop))) ↔
      0 ≤ stop ∨ (Text.lines content.runes).length + stop ≤ 0 ∨
        (Text.lines content.runes).length + stop = 1 ∧
          (Text.lines content.runes).head? = some []) ∧
    ((byteRange fs cache p start stop).2.answer = decode (bytesAsked data start stop) ↔
      0 ≤ stop ∨ data.size + stop ≤ 0) ∧
    (stop < 0 →
      (lines fs cache p start stop).2.answer = .ok (.ofRunes (joinLines
        ((Text.lines content.runes).take ((Text.lines content.runes).length + stop).toNat))) ∧
      (byteRange fs cache p start stop).2.answer =
        decode (data.extract 0 (data.size + stop).toNat)) := by
  rw [lines_answer hdata hcontent h, byteRange_answer hdata h]
  refine ⟨?_, bytes_asked_iff data h, fun hstop => ⟨?_, ?_⟩⟩
  · rw [Except.ok.injEq]
    exact lines_asked_iff content h
  · rw [lineWindow_of_neg content h hstop]
  · rw [byteWindow_of_neg data h hstop]

/-- A file of three lines. -/
def letters : ByteArray := "x\ny\nz\n".toUTF8

/-- The tree with this file. -/
def lettersFiles : Files :=
  ((Files.empty []).after ((Files.empty []).write (.ofText "a.txt") (.bytes letters))).1

/-- The lines from -5 to -1 are none, but two are answered; likewise for bytes. -/
theorem fetched_asked_iff_letters :
    (bytes lettersFiles .empty (.ofText "a.txt")).2 = .ok letters ∧
    Text.ofUTF8? letters = some (Text.ofString "x\ny\nz\n") ∧
    linesAsked "x\ny\nz\n" (-5) (-1) = [] ∧
    (lines lettersFiles .empty (.ofText "a.txt") (-5) (-1)).2.answer = .ok "x\ny" ∧
    bytesAsked letters (-5) (-1) = .empty ∧
    (byteRange lettersFiles .empty (.ofText "a.txt") (-5) (-1)).2.answer = .ok "x\ny\nz" ∧
    ¬ (lines lettersFiles .empty (.ofText "a.txt") (-5) (-1)).2.answer =
      .ok (.ofRunes (joinLines (linesAsked "x\ny\nz\n" (-5) (-1)))) ∧
    ¬ (byteRange lettersFiles .empty (.ofText "a.txt") (-5) (-1)).2.answer =
      decode (bytesAsked letters (-5) (-1)) := by
  have hdata : (bytes lettersFiles .empty (.ofText "a.txt")).2 = .ok letters :=
    ok_of_toOption (by decide +kernel)
  have hcontent : Text.ofUTF8? letters = some (Text.ofString "x\ny\nz\n") := by decide +kernel
  obtain ⟨hlines, hbytes, hneg⟩ :=
    fetched_asked_iff hdata hcontent (show (-5 : Int) ≤ -1 by decide)
  obtain ⟨hlines', hbytes'⟩ := hneg (by decide)
  refine ⟨hdata, hcontent, by decide +kernel, hlines'.trans ?_, by decide +kernel,
    hbytes'.trans ?_, ?_, ?_⟩
  · exact congrArg Except.ok (by decide +kernel)
  · exact decode_eq_ok_iff.2 (by decide +kernel)
  · rw [hlines]
    decide +kernel
  · rw [hbytes]
    decide +kernel

end Fetch

end CallAtlas
