import CallAtlas.Proofs.Index.Additions
import CallAtlas.Proofs.Service.Failures
import CallAtlas.Proofs.Service.Filling
import CallAtlas.Proofs.Value.Printed

/-! # The order of the symbols

The symbols of an index are told in the order of their printed forms. How a symbol is printed is
left to the library: what stands around the name and the class is left open (`Layout`). Heads are
told apart whatever follows them (`Text.Apart`), and so are the name and the class, which are
quoted. So symbols that are printed alike are equal (`Layout.Lawful.print_inj`), and the order
leaves nothing open.

* `listSymbols_determined`: services with the same symbols tell the same list, which has each symbol
  once, in the order of the printed forms. -/

namespace CallAtlas

namespace Text

/-! ## Texts in order -/

/-- Two parts of texts are told apart whatever follows them, unless they are equal. -/
def Apart (p q : List Rune) : Prop := ∀ x y, p ++ x = q ++ y → p = q

theorem Apart.symm {p q : List Rune} (h : Apart p q) : Apart q p := fun x y hxy =>
  (h y x hxy.symm).symm

theorem apart_of_take_ne {p q : List Rune} {n : Nat} (hp : n ≤ p.length) (hq : n ≤ q.length)
    (h : p.take n ≠ q.take n) : Apart p q := by
  intro x y hxy
  have htake := congrArg (List.take n) hxy
  rw [List.take_append_of_le_length hp, List.take_append_of_le_length hq] at htake
  exact absurd htake h

theorem le_refl (a : Text) : a.le a = true := (le_total a a).elim id id

theorem lt_iff {a b : Text} : a.lt b = true ↔ a.le b = true ∧ a ≠ b := by
  rw [lt, Bool.not_eq_true', Bool.eq_false_iff]
  constructor
  · intro h
    refine ⟨(le_total a b).resolve_right h, ?_⟩
    rintro rfl
    exact h (le_refl a)
  · rintro ⟨hle, hne⟩ hge
    exact hne (le_antisymm hle hge)

theorem lt_asymm {a b : Text} (h : a.lt b = true) : b.lt a ≠ true := fun h' =>
  (lt_iff.1 h).2 (le_antisymm (lt_iff.1 h).1 (lt_iff.1 h').1)

end Text

namespace Service

/-! ## Names and classes -/

theorem hasHalf_classText (c : Option Text) : (Symbol.classText c).hasHalf = false := by
  cases c with
  | none => exact Text.hasHalf_ofString _
  | some c => exact Text.hasHalf_quoted c

/-- The plain text for a class that is not known starts like no quoted text. -/
theorem none_append_ne_quoted (c : Text) (x y : List Rune) :
    (Text.ofString "None").runes ++ x ≠ c.quoted.runes ++ y := by
  rw [Text.runes_quoted]
  intro h
  have hquote : 'N' = Text.Quoted.quoteFor c.runes := Rune.char.inj (List.cons.inj h).1
  rcases Text.Quoted.isQuote_quoteFor c.runes with hq | hq <;> rw [hq] at hquote <;> cases hquote

theorem classText_append_inj {c d : Option Text} {x y : List Rune}
    (h : (Symbol.classText c).runes ++ x = (Symbol.classText d).runes ++ y) : c = d := by
  cases c with
  | none =>
    cases d with
    | none => rfl
    | some d => exact absurd h (none_append_ne_quoted d x y)
  | some c =>
    cases d with
    | none => exact absurd h.symm (none_append_ne_quoted c y x)
    | some d => rw [(Text.quoted_append_inj h).1]

/-! ## Printed forms -/

/-- What stands around the name and the class of a symbol where it is printed. -/
structure Layout where
  functionHead : Text
  methodHead : Text
  classHead : Text
  functionTail : Text
  methodTail : Text

namespace Layout

/-- What stands before the name. -/
def head (p : Layout) (s : Symbol) : Text := if s.isFunction then p.functionHead else p.methodHead

/-- What stands after the name. -/
def tail (p : Layout) : Symbol → Text
  | .function _ => p.functionTail
  | .method _ c => p.classHead ++ Symbol.classText c ++ p.methodTail

/-- The printed form of a symbol. -/
def print (p : Layout) (s : Symbol) : Text := p.head s ++ s.name.quoted ++ p.tail s

/-- Functions and methods are told apart by what stands before their names, and all texts are
whole. -/
structure Lawful (p : Layout) : Prop where
  functionHead : p.functionHead.hasHalf = false
  methodHead : p.methodHead.hasHalf = false
  classHead : p.classHead.hasHalf = false
  functionTail : p.functionTail.hasHalf = false
  methodTail : p.methodTail.hasHalf = false
  differ : p.functionHead ≠ p.methodHead
  apart : Text.Apart p.functionHead.runes p.methodHead.runes

/-- The library prints the symbols that hold members of the enumeration with this layout. -/
def IsPrinted [Library] (p : Layout) : Prop :=
  ∀ s : Symbol, Library.printed (.member s.kind) s = p.print s

namespace Lawful

variable {p : Layout} {a b : Symbol} (hp : p.Lawful)
include hp

theorem hasHalf_head (s : Symbol) : (p.head s).hasHalf = false := by
  cases s with
  | function n => exact hp.functionHead
  | method n c => exact hp.methodHead

theorem hasHalf_tail (s : Symbol) : (p.tail s).hasHalf = false := by
  cases s with
  | function n => exact hp.functionTail
  | method n c =>
    exact Text.hasHalf_append (Text.hasHalf_append hp.classHead (hasHalf_classText c)) hp.methodTail

theorem runes_print (s : Symbol) : (p.print s).runes =
    (p.head s).runes ++ (s.name.quoted.runes ++ (p.tail s).runes) := by
  have hname := Text.hasHalf_quoted s.name
  rw [print, Text.runes_append (Text.hasHalf_append (hp.hasHalf_head s) hname) (hp.hasHalf_tail s),
    Text.runes_append (hp.hasHalf_head s) hname, List.append_assoc]

theorem runes_tail_method (n : Text) (c : Option Text) : (p.tail (.method n c)).runes =
    p.classHead.runes ++ ((Symbol.classText c).runes ++ p.methodTail.runes) := by
  have hclass := hasHalf_classText c
  rw [tail, Text.runes_append (Text.hasHalf_append hp.classHead hclass) hp.methodTail,
    Text.runes_append hp.classHead hclass, List.append_assoc]

theorem apart_head (a b : Symbol) : Text.Apart (p.head a).runes (p.head b).runes := by
  cases a <;> cases b
  case function.method => exact hp.apart
  case method.function => exact hp.apart.symm
  all_goals exact fun _ _ _ => rfl

theorem head_ne (h : a.isFunction ≠ b.isFunction) : (p.head a).runes ≠ (p.head b).runes := by
  intro hrunes
  cases a <;> cases b
  case function.method => exact hp.differ (Text.ext hrunes)
  case method.function => exact hp.differ (Text.ext hrunes).symm
  all_goals exact h rfl

/-- Symbols that are printed alike are equal. -/
theorem print_inj (h : p.print a = p.print b) : a = b := by
  have hrunes := congrArg Text.runes h
  rw [hp.runes_print, hp.runes_print] at hrunes
  have hkind : a.isFunction = b.isFunction := by
    by_contra hne
    exact hp.head_ne hne (hp.apart_head a b _ _ hrunes)
  rw [head, head, hkind] at hrunes
  obtain ⟨hname, htail⟩ := Text.quoted_append_inj (List.append_cancel_left hrunes)
  cases a with
  | function n =>
    cases b with
    | function m => exact congrArg Symbol.function hname
    | method m d => cases hkind
  | method n c =>
    cases b with
    | function m => cases hkind
    | method m d =>
      rw [hp.runes_tail_method, hp.runes_tail_method] at htail
      rw [classText_append_inj (List.append_cancel_left htail)]
      exact congrArg (Symbol.method · d) hname

end Lawful

end Layout

/-! ## Lists in order -/

section

variable [Library] (hmembers : Library.KeepsMembers) {p : Layout} (hprint : p.IsPrinted)
include hmembers hprint

/-- It makes no difference to how a symbol is printed where it comes from. -/
theorem printed_eq (x : Indexer) (s : Symbol) : printed x s = p.print s := by
  rw [printed, Indexer.typeOf_eq hmembers, hprint s]

/-- In whatever order the symbols are come by, they are told in the order of their printed forms. -/
theorem pairwise_mergeSort (hp : p.Lawful) (x : Indexer) {order : List Symbol}
    (hnodup : order.Nodup) :
    (order.mergeSort fun a b => (printed x a).le (printed x b)).Pairwise fun a b =>
      (p.print a).lt (p.print b) = true := by
  simp only [printed_eq hmembers hprint]
  have hle : (order.mergeSort fun a b => (p.print a).le (p.print b)).Pairwise
      fun a b => (p.print a).le (p.print b) = true := by
    apply List.pairwise_mergeSort
    · exact fun _ _ _ => Text.le_trans
    · intro a b
      rw [Bool.or_eq_true]
      exact Text.le_total _ _
  have hsorted := (order.mergeSort_perm fun a b => (p.print a).le (p.print b)).nodup_iff.2 hnodup
  exact (hle.and hsorted).imp fun ⟨hle, hne⟩ =>
    Text.lt_iff.2 ⟨hle, fun heq => hne (hp.print_inj heq)⟩

end

/-- There is one order of some symbols by their printed forms. -/
theorem eq_of_pairwise_lt {p : Layout} {as bs : List Symbol} (h : as.Perm bs)
    (has : as.Pairwise fun a b => (p.print a).lt (p.print b) = true)
    (hbs : bs.Pairwise fun a b => (p.print a).lt (p.print b) = true) : as = bs :=
  h.eq_of_pairwise (fun _ _ _ _ hab hba => absurd hba (Text.lt_asymm hab)) has hbs

/-- Let symbols keep their members (`Library.KeepsMembers`), and a `Lawful` layout be the one they
are printed with (`IsPrinted`). Services that are set up and have the same symbols, however their
indexes were come by, answer `listSymbols` with the same list. It has each symbol once, in the order
of the printed forms, and is what sorting gives in whatever order the symbols are come by. -/
theorem listSymbols_determined [Library] (hmembers : Library.KeepsMembers) {p : Layout}
    (hp : p.Lawful) (hprint : p.IsPrinted) {s s' : Service} {st st' : Setup}
    (hst : s.setup = some st) (hst' : s'.setup = some st')
    (hsame : ∀ a, a ∈ st.indexer.index.symbols ↔ a ∈ st'.indexer.index.symbols) :
    ∃ listed, listSymbols.on s = (.ok listed, s) ∧ listSymbols.on s' = (.ok listed, s') ∧
      listed.Nodup ∧ (∀ a, a ∈ listed ↔ a ∈ st.indexer.index.symbols) ∧
      listed.Pairwise (fun a b => (p.print a).lt (p.print b) = true) ∧
      ∀ order : List Symbol, order.Perm listed →
        order.mergeSort (fun a b => (printed st.indexer a).le (printed st.indexer b)) = listed ∧
        order.mergeSort (fun a b => (printed st'.indexer a).le (printed st'.indexer b)) =
          listed := by
  have hperm : (symbolsOf st.indexer).Perm st.indexer.index.symbols := List.mergeSort_perm ..
  have hnodup : (symbolsOf st.indexer).Nodup := hperm.nodup_iff.2 (nodup_symbols _)
  have hordered := pairwise_mergeSort hmembers hprint hp st.indexer
    (nodup_symbols st.indexer.index)
  have hany (x : Indexer) (order : List Symbol) (horder : order.Perm (symbolsOf st.indexer)) :
      order.mergeSort (fun a b => (printed x a).le (printed x b)) = symbolsOf st.indexer :=
    eq_of_pairwise_lt ((List.mergeSort_perm ..).trans horder)
      (pairwise_mergeSort hmembers hprint hp x (horder.nodup_iff.2 hnodup)) hordered
  have hindexes : st'.indexer.index.symbols.Perm st.indexer.index.symbols :=
    (List.perm_ext_iff_of_nodup (nodup_symbols _) (nodup_symbols _)).2 fun a => (hsame a).symm
  have hother : symbolsOf st'.indexer = symbolsOf st.indexer :=
    hany st'.indexer _ (hindexes.trans hperm.symm)
  refine ⟨symbolsOf st.indexer, on_listSymbols hst, ?_, hnodup, fun _ => hperm.mem_iff, hordered,
    fun order horder => ⟨hany _ order horder, hany _ order horder⟩⟩
  rw [on_listSymbols hst', hother]

/-- The fields of a symbol one after the other, the kind in front of them. -/
def Layout.fields : Layout where
  functionHead := "type=" ++ SymbolType.toText (.member .function) ++ " name="
  methodHead := "type=" ++ SymbolType.toText (.member .method) ++ " name="
  classHead := " class_name="
  functionTail := ""
  methodTail := ""

theorem Layout.lawful_fields : Layout.fields.Lawful where
  functionHead := by decide +kernel
  methodHead := by decide +kernel
  classHead := Text.hasHalf_ofString _
  functionTail := Text.hasHalf_ofString _
  methodTail := Text.hasHalf_ofString _
  differ := by decide +kernel
  apart := Text.apart_of_take_ne (n := 18) (by decide +kernel) (by decide +kernel)
    (by decide +kernel)

theorem Layout.isPrinted_fields : @Layout.IsPrinted .standard Layout.fields := by
  intro s
  apply Text.ext
  rw [Layout.lawful_fields.runes_print]
  have hname := Text.hasHalf_quoted s.name
  cases s with
  | function n =>
    refine (Text.runes_append Layout.lawful_fields.functionHead hname).trans ?_
    exact congrArg (_ ++ ·) (List.append_nil _).symm
  | method n c =>
    have hclass := hasHalf_classText c
    have hhead := Text.hasHalf_append Layout.lawful_fields.methodHead hname
    rw [Layout.lawful_fields.runes_tail_method]
    refine (Text.runes_append (Text.hasHalf_append hhead Layout.lawful_fields.classHead)
      hclass).trans ?_
    rw [Text.runes_append hhead Layout.lawful_fields.classHead,
      Text.runes_append Layout.lawful_fields.methodHead hname]
    have hend : Layout.fields.methodTail.runes = [] := rfl
    rw [hend, List.append_nil, List.append_assoc, List.append_assoc]
    rfl

/-- A service whose index has come by some symbols one after the other, some of which it had loaded
from a document. -/
def gathered (loaded symbols : List Symbol) : Service :=
  let index (symbols : List Symbol) : Index :=
    symbols.foldl (fun ix s => ix.addDefinition s (.bare (Linked.lineAt 1))) (.empty .linked)
  let x : Indexer := ⟨.bare, index symbols, true, .ofIndex (index loaded)⟩
  { start (.empty []) with setup := some ⟨x, .here, .document, 0⟩ }

/-- A function, a method and a function with a quote in its name are told alike, whether one of them
was loaded from a document or not. The quote makes the name be quoted otherwise, and so come
first. -/
theorem listSymbols_determined_gathered :
    letI := Library.standard
    (listSymbols.on (gathered [.function "a"]
      [.function "a", .method "a" none, .function "b'"])).1 =
      .ok [.function "b'", .function "a", .method "a" none] ∧
    (listSymbols.on (gathered [] [.method "a" none, .function "b'", .function "a"])).1 =
      .ok [.function "b'", .function "a", .method "a" none] := by
  let _ := Library.standard
  have hst : (gathered [.function "a"] [.function "a", .method "a" none, .function "b'"]).setup =
    some _ := rfl
  have hst' : (gathered [] [.method "a" none, .function "b'", .function "a"]).setup = some _ := rfl
  obtain ⟨listed, hon, hon', hnodup, hmem, hordered, -⟩ :=
    listSymbols_determined Library.keepsMembers_standard Layout.lawful_fields
      Layout.isPrinted_fields hst hst' fun _ => List.Perm.mem_iff (by decide +kernel)
  have hlisted : listed = [.function "b'", .function "a", .method "a" none] := by
    refine eq_of_pairwise_lt ((List.perm_ext_iff_of_nodup hnodup (by decide)).2 fun a => ?_)
      hordered (by decide +kernel)
    exact (hmem a).trans (List.Perm.mem_iff (by decide +kernel))
  rw [hon, hon', hlisted]
  exact ⟨rfl, rfl⟩

end Service

end CallAtlas
