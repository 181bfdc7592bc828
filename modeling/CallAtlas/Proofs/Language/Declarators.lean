import CallAtlas.Language.C
import CallAtlas.Proofs.Outcome
import CallAtlas.Proofs.Source.Tree
import CallAtlas.Proofs.Text.Lines

/-! # Functions in pointers

A source is in order (`Source.Covers`) if its bytes are those of characters and the nodes of its
tree start and stop between characters. Then every node has a text, and a definition is read as soon
as its name is found (`C.definition_eq_some_iff`). The name is looked for in the outermost pointer
only, and not in the pointers inside it (`C.name?_of_pointer`).

* `C.definition_inPointers_iff`: a function whose declarator stands in pointers is read under its
  name iff there is no pointer, or the outermost one holds a function declarator with the name. -/

namespace CallAtlas

/-! ## Nodes between characters -/

namespace Source

/-- A position between two characters, or at an end of all of them. -/
def IsBorder (cs : List Char) (i : Int) : Prop := ∃ k, i = ((cs.take k).utf8Encode.size : Int)

/-- The bytes of a source are those of characters, and the nodes of its tree start and stop between
characters. -/
structure Covers (s : Source) (cs : List Char) (root : Tree) : Prop where
  bytes : s.bytes = cs.utf8Encode
  borders : ∀ t ∈ root.preorder, IsBorder cs t.start ∧ IsBorder cs t.stop

theorem size_utf8Encode (cs : List Char) :
    cs.utf8Encode.size = (cs.flatMap String.utf8EncodeChar).length := by
  rw [← toList_utf8Encode]
  rfl

section
variable {α β : Type} (g : α → List β) (xs : List α) (k : Nat)

theorem flatMap_take_append_drop :
    (xs.take k).flatMap g ++ (xs.drop k).flatMap g = xs.flatMap g := by
  rw [← List.flatMap_append, List.take_append_drop]

theorem take_flatMap : (xs.flatMap g).take ((xs.take k).flatMap g).length =
    (xs.take k).flatMap g := by
  rw [← flatMap_take_append_drop g xs k, List.take_left]

theorem drop_flatMap : (xs.flatMap g).drop ((xs.take k).flatMap g).length =
    (xs.drop k).flatMap g := by
  rw [← flatMap_take_append_drop g xs k, List.drop_left]

end

theorem cut_border (cs : List Char) (k : Nat) :
    cut cs.utf8Encode.size ((cs.take k).utf8Encode.size : Int) = (cs.take k).utf8Encode.size := by
  have hle : (cs.take k).utf8Encode.size ≤ cs.utf8Encode.size := by
    rw [size_utf8Encode, size_utf8Encode, ← flatMap_take_append_drop _ cs k, List.length_append]
    omega
  exact (cut_ofNat _ _).trans (Nat.min_eq_left hle)

/-- What stands between two borders are characters. -/
theorem slice_border {s : Source} {cs : List Char} (h : s.bytes = cs.utf8Encode) (k l : Nat) :
    s.slice ((cs.take k).utf8Encode.size) ((cs.take l).utf8Encode.size) =
      ((cs.take l).drop k).utf8Encode := by
  rw [slice, h, cut_border, cut_border, extract_eq_toByteArray, toList_utf8Encode, size_utf8Encode,
    size_utf8Encode, take_flatMap]
  refine congrArg List.toByteArray ?_
  rcases Nat.le_total k l with hkl | hlk
  · rw [← drop_flatMap, List.take_take, Nat.min_eq_left hkl]
  · -- the stop is not behind the start, so nothing stands between them
    have htake : (cs.take k).take l = cs.take l := by rw [List.take_take, Nat.min_eq_left hlk]
    have hle : ((cs.take l).flatMap String.utf8EncodeChar).length ≤
        ((cs.take k).flatMap String.utf8EncodeChar).length := by
      rw [← flatMap_take_append_drop _ (cs.take k) l, htake, List.length_append]
      omega
    have hnil : (cs.take l).drop k = [] :=
      List.drop_of_length_le (Nat.le_trans (List.length_take_le l cs) hlk)
    rw [List.drop_of_length_le hle, hnil]
    rfl

variable {s : Source} {cs : List Char} {root : Tree}

theorem Covers.exists_text (h : s.Covers cs root) {t : Tree} (ht : t ∈ root.preorder) :
    ∃ text, s.text t = .ok text := by
  obtain ⟨⟨k, hk⟩, l, hl⟩ := h.borders t ht
  have hslice : s.slice t.start t.stop = ((cs.take l).drop k).utf8Encode := by
    rw [hk, hl, slice_border h.bytes]
  have htext : s.text? t = some (.ofChars ((cs.take l).drop k)) :=
    Text.ofUTF8?_eq_some_iff.2 ⟨_, hslice, rfl⟩
  exact ⟨_, by rw [text, htext]⟩

end Source

/-! ## Readers that do not fail -/

namespace Language

variable {s : Source} {cs : List Char} {root : Tree} (h : s.Covers cs root)
include h

theorem Comment.exists_collect {ts : List Tree} (hts : ∀ t ∈ ts, t ∈ root.preorder) :
    ∃ found, collect s ts = .ok found := by
  induction ts with
  | nil => exact ⟨[], rfl⟩
  | cons t ts ih =>
    obtain ⟨raw, hraw⟩ := h.exists_text (hts t (.head _))
    obtain ⟨rest, hrest⟩ := ih fun u hu => hts u (.tail _ hu)
    rw [collect, hraw, hrest]
    split
    · exact ⟨_, rfl⟩
    · split
      · exact ⟨rest, rfl⟩
      · exact ⟨[], rfl⟩

theorem Comment.exists_before {c : Cursor} (hc : c ∈ Cursor.all root) :
    ∃ doc, before s c = .ok doc := by
  obtain ⟨found, hfound⟩ := exists_collect h (Cursor.before_mem_preorder hc)
  rw [before, hfound]
  cases found <;> exact ⟨_, rfl⟩

theorem C.exists_call {t : Tree} (ht : t ∈ root.preorder) : ∃ found, call s t = .ok found := by
  unfold call
  split
  · exact ⟨none, rfl⟩
  · next name hname =>
    have hmem : name ∈ root.preorder := by
      unfold callee? at hname
      split at hname
      · cases hname
      · next f hf =>
        split at hname
        · obtain rfl := Option.some.inj hname
          exact Tree.child?_mem_preorder ht hf
        · cases hname
    obtain ⟨text, htext⟩ := h.exists_text hmem
    rw [htext]
    exact ⟨_, rfl⟩

theorem C.exists_sitesOf {ts : List Tree} (hts : ∀ t ∈ ts, t ∈ root.preorder) :
    ∃ sites, sitesOf call s ts = .ok sites := by
  induction ts with
  | nil => exact ⟨[], rfl⟩
  | cons t ts ih =>
    obtain ⟨found, hfound⟩ := exists_call h (hts t (.head _))
    obtain ⟨rest, hrest⟩ := ih fun u hu => hts u (.tail _ hu)
    rw [sitesOf, hfound, hrest]
    exact ⟨_, rfl⟩

theorem C.exists_callsIn {t : Tree} (ht : t ∈ root.preorder) (kind : String) :
    ∃ sites, callsIn call kind s t = .ok sites := by
  unfold callsIn
  split
  · exact ⟨[], rfl⟩
  · next body hbody =>
    refine exists_sitesOf h fun u hu => ?_
    exact Tree.mem_preorder_trans (Tree.child?_mem_preorder ht hbody) (Tree.mem_ofKind.1 hu).1

theorem C.exists_named {c : Cursor} (hc : c ∈ Cursor.ofKind "function_definition" root)
    (name : Text) : ∃ d, named call s c name = .ok (.function name, d) := by
  obtain ⟨doc, hdoc⟩ := Comment.exists_before h (List.mem_filter.1 hc).1
  obtain ⟨calls, hcalls⟩ := exists_callsIn h (Cursor.tree_mem_preorder hc) "call_expression"
  rw [named, hdoc]
  exact ⟨_, by simp only [bind, Except.bind, hcalls]; rfl⟩

/-- A definition is read under a name iff that is what stands where its name is looked for. -/
theorem C.definition_eq_some_iff {c : Cursor} (hc : c ∈ Cursor.ofKind "function_definition" root)
    {name : Text} (hname : name.isEmpty = false) :
    (∃ d, definition s c = .ok (some (.function name, d))) ↔
      ∃ nameNode, name? c.tree = some nameNode ∧ s.text nameNode = .ok name := by
  refine ⟨?_, ?_⟩
  · rintro ⟨d, hd⟩
    unfold definition at hd
    split at hd
    · cases hd
    · next nameNode hnode =>
      split at hd
      · cases hd
      · next text htext =>
        obtain ⟨e, he⟩ := exists_named h hc text
        rw [he] at hd
        split at hd
        · cases hd
        · cases hd
          exact ⟨nameNode, hnode, htext⟩
  · rintro ⟨nameNode, hnode, htext⟩
    obtain ⟨d, hd⟩ := exists_named h hc name
    refine ⟨d, ?_⟩
    simp only [definition, hnode, htext, hname, hd]
    rfl

end Language

/-! ## Pointers -/

namespace Language.C

/-- A declarator stands in so many pointers, each the declarator of the one around it. -/
inductive InPointers (f : Tree) : Nat → Tree → Prop
  | bare : InPointers f 0 f
  | pointer {n : Nat} {inner p : Tree} (kind : p.kind = "pointer_declarator")
      (child : p.child? "declarator" = some inner) (h : InPointers f n inner) :
      InPointers f (n + 1) p

/-- A declarator declares a function whose name is a node. -/
def Declares (f nameNode : Tree) : Prop :=
  f.kind = "function_declarator" ∧ f.child? "declarator" = some nameNode ∧
    nameNode.kind = "identifier"

/-- No function declarator stands in a pointer besides its own declarator. -/
def IsLone (p : Tree) : Prop :=
  ∀ t ∈ p.children, t.kind = "function_declarator" → p.child? "declarator" = some t

theorem namedBy?_eq_some_iff {f nameNode : Tree} :
    namedBy? f = some nameNode ↔ Declares f nameNode := by
  unfold namedBy? Declares
  split
  · next hf =>
    split
    · next hc => simp [hc]
    · next name hc =>
      split
      · next hk =>
        simp only [hf, hc, Option.some.injEq, true_and]
        exact ⟨fun e => ⟨e, e ▸ hk⟩, And.left⟩
      · next hk =>
        simp only [hf, hc, Option.some.injEq, true_and, reduceCtorEq, false_iff, not_and]
        exact fun e => e ▸ hk
  · next hf => simp [hf]

variable {t d f nameNode : Tree} {n : Nat}

theorem InPointers.kind_of_pos (h : InPointers f n d) (hn : 0 < n) :
    d.kind = "pointer_declarator" := by
  cases h with
  | bare => exact absurd hn (Nat.lt_irrefl 0)
  | pointer kind => exact kind

theorem name?_of_bare (hd : t.child? "declarator" = some f) (hf : Declares f nameNode) :
    name? t = some nameNode := by
  have hkind : f.kind ≠ "pointer_declarator" := by rw [hf.1]; decide
  simp only [name?, hd, if_neg hkind]
  exact namedBy?_eq_some_iff.2 hf

/-- Of the pointers around a declarator only the outermost one counts. -/
theorem name?_of_pointer (hd : t.child? "declarator" = some d) (h : InPointers f n d)
    (hn : 0 < n) : name? t = (d.ofKind? "function_declarator").bind namedBy? := by
  simp only [name?, hd, if_pos (h.kind_of_pos hn)]

/-- A lone pointer shows the declarator inside it if that is no pointer again. -/
theorem IsLone.ofKind? (hlone : IsLone d) (h : InPointers f n d) (hn : 0 < n)
    (hf : f.kind = "function_declarator") :
    d.ofKind? "function_declarator" = if n = 1 then some f else none := by
  cases h with
  | bare => exact absurd hn (Nat.lt_irrefl 0)
  | @pointer m inner _ kind child h =>
    have hfound : ∀ u, d.ofKind? "function_declarator" = some u →
        u = inner ∧ inner.kind = "function_declarator" := by
      intro u hu
      have hkind : u.kind = "function_declarator" := by simpa using List.find?_some hu
      have hinner := hlone u (List.mem_of_find?_eq_some hu) hkind
      obtain rfl := Option.some.inj (child.symm.trans hinner)
      exact ⟨rfl, hkind⟩
    cases h with
    | bare =>
      obtain ⟨u, hu⟩ : ∃ u, d.ofKind? "function_declarator" = some u := by
        rw [← Option.isSome_iff_exists, Tree.ofKind?, List.find?_isSome]
        exact ⟨f, List.mem_of_find?_eq_some child, by simpa using hf⟩
      rw [hu, (hfound u hu).1]
      rfl
    | pointer kind' =>
      rw [if_neg (by omega), Option.eq_none_iff_forall_ne_some]
      intro u hu
      rw [(hfound u hu).2] at kind'
      exact absurd kind' (by decide)

/-- A function whose declarator stands `InPointers` is read by `definition` under its name iff there
is no pointer, or the outermost one holds a function declarator that `Declares` this name. So in
pointers that hold nothing else (`IsLone`) it is read iff there is at most one of them, and else it
is passed over without a word. -/
theorem definition_inPointers_iff {s : Source} {cs : List Char} {root : Tree}
    (h : s.Covers cs root) {c : Cursor} (hc : c ∈ Cursor.ofKind "function_definition" root)
    (hd : c.tree.child? "declarator" = some d) (hpointers : InPointers f n d)
    (hf : Declares f nameNode) {name : Text} (htext : s.text nameNode = .ok name)
    (hname : name.isEmpty = false) :
    ((∃ e, definition s c = .ok (some (.function name, e))) ↔
      n = 0 ∨ ∃ g other, d.ofKind? "function_declarator" = some g ∧ Declares g other ∧
        s.text other = .ok name) ∧
    (IsLone d → ((∃ e, definition s c = .ok (some (.function name, e))) ↔ n ≤ 1) ∧
      (1 < n → definition s c = .ok none)) := by
  rw [definition_eq_some_iff h hc hname]
  rcases Nat.eq_zero_or_pos n with rfl | hn
  · cases hpointers
    have hnode := name?_of_bare hd hf
    simp [hnode, htext]
  · rw [name?_of_pointer hd hpointers hn]
    refine ⟨?_, fun hlone => ?_⟩
    · simp only [Option.bind_eq_some_iff, namedBy?_eq_some_iff, Nat.ne_of_gt hn, false_or]
      refine ⟨?_, ?_⟩
      · rintro ⟨other, ⟨g, hg, hother⟩, htext⟩
        exact ⟨g, other, hg, hother, htext⟩
      · rintro ⟨g, other, hg, hother, htext⟩
        exact ⟨other, ⟨g, hg, hother⟩, htext⟩
    · have hnode := name?_of_pointer hd hpointers hn
      rw [hlone.ofKind? hpointers hn hf.1] at hnode ⊢
      by_cases hone : n = 1
      · simp [hone, namedBy?_eq_some_iff.2 hf, htext]
      · rw [if_neg hone, Option.bind_none] at hnode ⊢
        refine ⟨by simp; omega, fun _ => ?_⟩
        simp only [definition, hnode]

/-- The declarator of a function without parameters. -/
def plainDeclarator : Tree :=
  .node "function_declarator" 6 13 (some "declarator")
    [.node "identifier" 6 7 (some "declarator") [],
     .node "parameter_list" 7 13 (some "parameters") []]

def starred (start : Int) (inner : Tree) : Tree :=
  .node "pointer_declarator" start 13 (some "declarator")
    [.node "*" start (start + 1) none [], inner]

/-- A function that returns a pointer to a pointer. -/
def twoStars : Tree :=
  .node "function_definition" 0 16 none
    [.node "primitive_type" 0 3 (some "type") [], starred 4 (starred 5 plainDeclarator),
     .node "compound_statement" 14 16 (some "body") []]

def twoStarsText : String := "int **f(void) {}"

def twoStarsSource : Source := ⟨.ofText "m.c", twoStarsText.toUTF8⟩

theorem covers_twoStars : twoStarsSource.Covers twoStarsText.toList twoStars := by
  refine ⟨String.utf8Encode_toList.symm, fun t ht => ?_⟩
  have hborders : ∀ t ∈ twoStars.preorder,
      (∃ k < 17, t.start = ((twoStarsText.toList.take k).utf8Encode.size : Int)) ∧
      ∃ k < 17, t.stop = ((twoStarsText.toList.take k).utf8Encode.size : Int) := by decide +kernel
  obtain ⟨⟨k, -, hk⟩, l, -, hl⟩ := hborders t ht
  exact ⟨⟨k, hk⟩, l, hl⟩

theorem definition_inPointers_iff_twoStars :
    twoStarsSource.Covers twoStarsText.toList twoStars ∧
    ⟨twoStars, [], []⟩ ∈ Cursor.ofKind "function_definition" twoStars ∧
    twoStars.child? "declarator" = some (starred 4 (starred 5 plainDeclarator)) ∧
    InPointers plainDeclarator 2 (starred 4 (starred 5 plainDeclarator)) ∧
    Declares plainDeclarator (.node "identifier" 6 7 (some "declarator") []) ∧
    twoStarsSource.text (.node "identifier" 6 7 (some "declarator") []) = .ok "f" ∧
    (¬∃ e, definition twoStarsSource ⟨twoStars, [], []⟩ = .ok (some (.function "f", e))) ∧
    definition twoStarsSource ⟨twoStars, [], []⟩ = .ok none := by
  have hc : ⟨twoStars, [], []⟩ ∈ Cursor.ofKind "function_definition" twoStars :=
    List.mem_filter.2 ⟨.head _, rfl⟩
  have hpointers : InPointers plainDeclarator 2 (starred 4 (starred 5 plainDeclarator)) :=
    .pointer rfl rfl (.pointer rfl rfl .bare)
  have hf : Declares plainDeclarator (.node "identifier" 6 7 (some "declarator") []) :=
    ⟨rfl, rfl, rfl⟩
  have htext : twoStarsSource.text (.node "identifier" 6 7 (some "declarator") []) = .ok "f" :=
    ok_of_toOption (by decide +kernel)
  have hlone : IsLone (starred 4 (starred 5 plainDeclarator)) := by
    intro t ht hk
    rcases List.mem_cons.1 ht with rfl | ht
    · exact absurd hk (by decide)
    · rw [List.mem_singleton.1 ht] at hk
      exact absurd hk (by decide)
  obtain ⟨-, hread⟩ := definition_inPointers_iff covers_twoStars hc rfl hpointers hf htext rfl
  obtain ⟨hiff, hnone⟩ := hread hlone
  exact ⟨covers_twoStars, hc, rfl, hpointers, hf, htext, by rw [hiff]; decide, hnone (by decide)⟩

end Language.C

end CallAtlas
