import CallAtlas.Indexer
import CallAtlas.Proofs.Index.Links
import CallAtlas.Proofs.Language.Calls

/-! # What indexing a file records

Indexing reads the definitions of a tree with the calls in their bodies, and then all calls of the
tree. If every node can be read, the index becomes the one that all these records give
(`addTree_eq`). Of an empty index

* a call is recorded iff it is read off some node that calls, and
* it is recorded with a definition around it iff that definition is read off some node in whose
  body the call stands (`indexFile_containment`). -/

namespace CallAtlas

/-! ## What is read off nodes -/

namespace Language

section
variable {ν α : Type} {read : ν → Except ReadFault (Option (Symbol × α))} {nodes : List ν}

/-- What is read off nodes. -/
def allRead (read : ν → Except ReadFault (Option (Symbol × α))) (nodes : List ν) :
    List (Symbol × α) :=
  nodes.filterMap fun n => match read n with
    | .ok found => found
    | .error _ => none

theorem mem_allRead {e : Symbol × α} :
    e ∈ allRead read nodes ↔ ∃ n ∈ nodes, read n = .ok (some e) := by
  rw [allRead, List.mem_filterMap]
  refine exists_congr fun n => and_congr_right fun _ => ?_
  cases read n <;> simp

end

/-- The definitions that are read off nodes. -/
def definitionsRead (l : Language) (s : Source) : List Cursor → List (Symbol × Definition) :=
  allRead (l.definition s)

/-- The calls that are read off nodes. -/
def callsRead (l : Language) (s : Source) : List Tree → List (Symbol × Reference) :=
  allRead (l.call s)

/-- The nodes that call below a node are among those of the tree. -/
theorem callNodes_subset {l : Language} {root t n : Tree} (ht : t ∈ root.preorder)
    (hn : n ∈ l.callNodes t) : n ∈ l.callNodes root := by
  obtain ⟨k, hk, hn⟩ := List.mem_flatMap.1 hn
  exact List.mem_flatMap.2 ⟨k, hk, Tree.ofKind_subset ht hn⟩

theorem tree_mem_preorder_of_definitionNodes {l : Language} {root : Tree} {c : Cursor}
    (h : c ∈ l.definitionNodes root) : c.tree ∈ root.preorder := by
  obtain ⟨k, -, hc⟩ := List.mem_flatMap.1 h
  exact Cursor.tree_mem_preorder hc

/-- A call in the body of a node stands at a node of the tree. -/
theorem CallInBody.readsCall {l : Language} {s : Source} {root t : Tree} {call : Site}
    (h : l.CallInBody s t call) (ht : t ∈ root.preorder) :
    ∃ n ∈ l.callNodes root, l.ReadsCall s n call := by
  obtain ⟨body, hb, n, hn, hr⟩ := h
  exact ⟨n, callNodes_subset (Tree.child?_mem_preorder ht hb) hn, hr⟩

/-- An index with the definitions and then the calls of a tree added. -/
def readInto (l : Language) (s : Source) (root : Tree) (ix : Linked) : Linked :=
  (ix.addDefinitions (l.definitionsRead s (l.definitionNodes root))).addReferences
    (l.callsRead s (l.callNodes root))

/-- All nodes of a tree that define or call can be read. -/
structure Reads (l : Language) (s : Source) (root : Tree) : Prop where
  definitions : ∀ c ∈ l.definitionNodes root, ∃ found, l.definition s c = .ok found
  calls : ∀ t ∈ l.callNodes root, ∃ found, l.call s t = .ok found

end Language

/-! ## Indexing -/

namespace Indexer

/-- If all nodes can be read, what they give is put into the index one after the other. -/
theorem addEach_eq {ν α : Type} (read : Language → ν → Except ReadFault (Option (Symbol × α)))
    (put : Indexer → Symbol → α → Indexer) (enter : Linked → Symbol × α → Linked)
    (hput : ∀ x ix symbol a, x.index = .linked ix → (put x symbol a).language = x.language ∧
      (put x symbol a).index = .linked (enter ix (symbol, a)))
    {nodes : List ν} {x : Indexer} {ix : Linked} (hx : x.index = .linked ix)
    (h : ∀ n ∈ nodes, ∃ found, read x.language n = .ok found) :
    ∃ x', addEach read put nodes x = (x', none) ∧ x'.language = x.language ∧
      x'.index = .linked ((Language.allRead (read x.language) nodes).foldl enter ix) := by
  induction nodes generalizing x ix with
  | nil => exact ⟨x, rfl, rfl, hx⟩
  | cons n nodes ih =>
    obtain ⟨found, hfound⟩ := h n (.head _)
    have hnodes := fun n' hn' => h n' (.tail _ hn')
    rw [addEach, Language.allRead, List.filterMap_cons, hfound]
    cases found with
    | none => exact ih hx hnodes
    | some e =>
      obtain ⟨hlanguage, hindex⟩ := hput x ix e.1 e.2 hx
      have hrest := ih hindex (by rwa [hlanguage])
      rwa [hlanguage] at hrest

theorem addDefinitions_eq {s : Source} {cs : List Cursor} {x : Indexer} {ix : Linked}
    (hx : x.index = .linked ix) (h : ∀ c ∈ cs, ∃ found, x.language.definition s c = .ok found) :
    ∃ x', addDefinitions s cs x = (x', none) ∧ x'.language = x.language ∧
      x'.index = .linked (ix.addDefinitions (x.language.definitionsRead s cs)) := by
  refine addEach_eq (fun l => l.definition s) addDefinition
    (fun ix e => ix.addDefinition e.1 e.2) (fun x ix symbol d hx => ⟨rfl, ?_⟩) hx h
  rw [addDefinition, hx]
  rfl

theorem addReferences_eq {s : Source} {ts : List Tree} {x : Indexer} {ix : Linked}
    (hx : x.index = .linked ix) (h : ∀ t ∈ ts, ∃ found, x.language.call s t = .ok found) :
    ∃ x', addReferences s ts x = (x', none) ∧ x'.language = x.language ∧
      x'.index = .linked (ix.addReferences (x.language.callsRead s ts)) := by
  refine addEach_eq (fun l => l.call s) addReference
    (fun ix e => ix.addReference e.1 e.2) (fun x ix symbol r hx => ⟨rfl, ?_⟩) hx h
  rw [addReference, hx]
  rfl

/-- A tree that can be read adds its definitions and then its calls. -/
theorem addTree_eq {s : Source} {root : Tree} {x : Indexer} {ix : Linked}
    (hx : x.index = .linked ix) (h : x.language.Reads s root) :
    ∃ x', x.addTree s root = (x', none) ∧ x'.language = x.language ∧
      x'.index = .linked (x.language.readInto s root ix) := by
  obtain ⟨x1, h1, hl1, hx1⟩ := addDefinitions_eq hx h.definitions
  obtain ⟨x2, h2, hl2, hx2⟩ := addReferences_eq (s := s) hx1 (hl1 ▸ h.calls)
  refine ⟨x2, ?_, hl2.trans hl1, ?_⟩
  · rw [addTree, h1]
    exact h2
  · rw [hx2, hl1]
    rfl

end Indexer

/-! ## Containment -/

section
variable {l : Language} (hl : l.ListsCalls) {s : Source} {root : Tree} {call caller : Site}
include hl

/-- The calls that the definitions of a tree list, with the definitions. -/
theorem exists_definitionsRead_iff :
    (∃ e ∈ l.definitionsRead s (l.definitionNodes root),
      caller = ⟨e.1, e.2.location⟩ ∧ call ∈ e.2.calls) ↔
    ∃ c ∈ l.definitionNodes root, l.ReadsDefinition s c caller ∧ l.CallInBody s c.tree call := by
  constructor
  · rintro ⟨⟨f, d⟩, he, rfl, hcall⟩
    obtain ⟨c, hc, hd⟩ := Language.mem_allRead.1 he
    exact ⟨c, hc, ⟨d, hd, rfl⟩, (hl.calls s c f d hd call).1 hcall⟩
  · rintro ⟨c, hc, ⟨d, hd, hloc⟩, hbody⟩
    obtain ⟨f, p⟩ := caller
    cases hloc
    exact ⟨(f, d), Language.mem_allRead.2 ⟨c, hc, hd⟩, rfl,
      (hl.calls s c f d hd call).2 hbody⟩

/-- The index of a tree that can be read records the calls of the tree, each with the definitions
in whose bodies it stands. -/
theorem records_iff (call caller : Site) :
    ((l.readInto s root .empty).Refers call ↔ ∃ t ∈ l.callNodes root, l.ReadsCall s t call) ∧
    ((l.readInto s root .empty).CalledBy call caller ↔
      ∃ c ∈ l.definitionNodes root, l.ReadsDefinition s c caller ∧ l.CallInBody s c.tree call) := by
  have hempty : ¬ Linked.empty.Refers call := fun ⟨_, h⟩ => (nomatch h)
  have hempty' : ¬ Linked.empty.CalledBy call caller := fun ⟨_, h, _⟩ => (nomatch h)
  rw [Language.readInto]
  constructor
  · rw [Linked.refers_addReferences, Linked.refers_addDefinitions]
    constructor
    · rintro ((h | ⟨⟨f, d⟩, he, hcall⟩) | ⟨⟨g, r⟩, he, rfl⟩)
      · exact absurd h hempty
      · obtain ⟨c, hc, hd⟩ := Language.mem_allRead.1 he
        exact ((hl.calls s c f d hd call).1 hcall).readsCall
          (Language.tree_mem_preorder_of_definitionNodes hc)
      · obtain ⟨t, ht, hr⟩ := Language.mem_allRead.1 he
        exact ⟨t, ht, r, hr, rfl⟩
    · rintro ⟨t, ht, r, hr, hloc⟩
      obtain ⟨g, p⟩ := call
      cases hloc
      exact .inr ⟨(g, r), Language.mem_allRead.2 ⟨t, ht, hr⟩, rfl⟩
  · rw [Linked.calledBy_addReferences, Linked.calledBy_addDefinitions,
      exists_definitionsRead_iff hl]
    constructor
    · rintro ((h | h) | ⟨⟨g, r⟩, he, -, hcaller⟩)
      · exact absurd h hempty'
      · exact h
      · -- a call that is read by itself tells no definition
        obtain ⟨t, -, hr⟩ := Language.mem_allRead.1 he
        rw [hl.callers s t g r hr] at hcaller
        cases hcaller
    · exact fun h => .inl (.inr h)

end

theorem definitionNodes_of_mem_all {l : Language} (hl : l ∈ Language.all) (root : Tree) :
    l.definitionNodes root = Cursor.ofKind "function_definition" root := by
  simp only [Language.all, List.mem_cons, List.not_mem_nil, or_false] at hl
  rcases hl with rfl | rfl | rfl <;> exact List.append_nil _

/-- For every language of `Language.all`, `indexFile` comes to its end on a file all of whose nodes
it `Reads`. A symbol then has a reference at a place iff `Language.call` reads it with that place
off some node of `callNodes`, and the reference knows a definition iff `Language.definition` reads
that off some node in whose body such a node stands. -/
theorem indexFile_containment (l : Language) (hl : l ∈ Language.all) (relative : Bool)
    (parse : Parser) (fs : Files) (file project recorded : Path) (bytes : ByteArray)
    (hb : Indexer.bytesAt? fs file = some bytes)
    (hp : (Indexer.start l .linked relative).recordedPath file project = .ok recorded)
    (h : l.Reads ⟨recorded, bytes⟩ (parse bytes)) :
    ∃ x ix, (Indexer.start l .linked relative).indexFile parse fs file project = (x, none) ∧
      x.index = .linked ix ∧
      (∀ (g : Symbol) (r : Location), (∃ ref, ix.referenceAt? g r = some ref) ↔
        ∃ t ∈ l.callNodes (parse bytes), ∃ ref,
          l.call ⟨recorded, bytes⟩ t = .ok (some (g, ref)) ∧ ref.location = r) ∧
      (∀ (g : Symbol) (r : Location) (f : Symbol) (d : Location),
        (∃ ref, ix.referenceAt? g r = some ref ∧ ⟨f, d⟩ ∈ ref.callers) ↔
        ∃ c ∈ Cursor.ofKind "function_definition" (parse bytes),
          (∃ x, l.definition ⟨recorded, bytes⟩ c = .ok (some (f, x)) ∧ x.location = d) ∧
          ∃ body, c.tree.child? "body" = some body ∧ ∃ t ∈ l.callNodes body, ∃ ref,
            l.call ⟨recorded, bytes⟩ t = .ok (some (g, ref)) ∧ ref.location = r) := by
  have hcalls := Language.listsCalls_of_mem_all hl
  obtain ⟨x, hx, -, hix⟩ := Indexer.addTree_eq (x := .start l .linked relative) rfl h
  refine ⟨x, _, ?_, hix, fun g r => ?_, fun g r f d => ?_⟩
  · simp only [Indexer.indexFile, hb, hp, hx]
    rfl
  · exact (records_iff hcalls ⟨g, r⟩ default).1
  · rw [← definitionNodes_of_mem_all hl]
    exact (records_iff hcalls ⟨g, r⟩ ⟨f, d⟩).2

/-- A definition inside a definition, with a call in each. -/
def nestedSource : ByteArray := "def f():\n    def g():\n        h()\n    g()\n".toUTF8

def nestedTree : Tree :=
  .node "module" 0 42 none
    [.node "function_definition" 0 41 none
      [.node "identifier" 4 5 (some "name") [],
       .node "block" 13 41 (some "body")
        [.node "function_definition" 13 33 none
          [.node "identifier" 17 18 (some "name") [],
           .node "block" 30 33 (some "body")
            [.node "expression_statement" 30 33 none
              [.node "call" 30 33 none [.node "identifier" 30 31 (some "function") []]]]],
         .node "expression_statement" 38 41 none
          [.node "call" 38 41 none [.node "identifier" 38 39 (some "function") []]]]]]

def nestedFiles : Files := ⟨[], OrderedMap.empty.insert ["m.py"] (.regular (.bytes nestedSource))⟩

/-- The inner call stands in both definitions. -/
theorem indexFile_containment_nested :
    Language.python.Reads ⟨.ofText "m.py", nestedSource⟩ nestedTree ∧
    ∃ x ix, (Indexer.start .python .linked false).indexFile (fun _ => nestedTree) nestedFiles
        (.ofText "m.py") (.ofText "") = (x, none) ∧ x.index = .linked ix ∧
      (∃ ref, ix.referenceAt? (.function "h") ⟨.ofText "m.py", 3, 8, 3, 11, 30, 33⟩ = some ref ∧
        ⟨.function "f", ⟨.ofText "m.py", 1, 0, 4, 7, 0, 41⟩⟩ ∈ ref.callers) ∧
      (∃ ref, ix.referenceAt? (.function "h") ⟨.ofText "m.py", 3, 8, 3, 11, 30, 33⟩ = some ref ∧
        ⟨.function "g", ⟨.ofText "m.py", 2, 4, 3, 11, 13, 33⟩⟩ ∈ ref.callers) := by
  have hreads : Language.python.Reads ⟨.ofText "m.py", nestedSource⟩ nestedTree := by
    have hd : ∀ c ∈ Language.python.definitionNodes nestedTree,
        (Language.python.definition ⟨.ofText "m.py", nestedSource⟩ c).toOption.isSome := by
      decide +kernel
    have hc : ∀ t ∈ Language.python.callNodes nestedTree,
        (Language.python.call ⟨.ofText "m.py", nestedSource⟩ t).toOption.isSome := by decide +kernel
    refine ⟨fun c hm => ?_, fun t hm => ?_⟩
    · obtain ⟨found, hf⟩ := Option.isSome_iff_exists.1 (hd c hm)
      exact ⟨found, ok_of_toOption hf⟩
    · obtain ⟨found, hf⟩ := Option.isSome_iff_exists.1 (hc t hm)
      exact ⟨found, ok_of_toOption hf⟩
  obtain ⟨x, ix, hx, hix, -, hcallers⟩ := indexFile_containment .python (.head _) false
    (fun _ => nestedTree) nestedFiles (.ofText "m.py") (.ofText "") (.ofText "m.py") nestedSource
    rfl rfl hreads
  -- the node of the inner call, and what is read off the two definitions
  let n : Tree := .node "call" 30 33 none [.node "identifier" 30 31 (some "function") []]
  let outer := (Cursor.ofKind "function_definition" nestedTree).get ⟨0, by decide⟩
  let inner := (Cursor.ofKind "function_definition" nestedTree).get ⟨1, by decide⟩
  have hcall : Language.python.call ⟨.ofText "m.py", nestedSource⟩ n = .ok (some (.function "h",
      ⟨⟨.ofText "m.py", 3, 8, 3, 11, 30, 33⟩, []⟩)) := ok_of_toOption (by decide +kernel)
  have hinner : Language.python.definition ⟨.ofText "m.py", nestedSource⟩ inner = .ok (some
      (.function "g", ⟨⟨.ofText "m.py", 2, 4, 3, 11, 13, 33⟩, none,
        [⟨.function "h", ⟨.ofText "m.py", 3, 8, 3, 11, 30, 33⟩⟩], none, none⟩)) :=
    ok_of_toOption (by decide +kernel)
  have houter : Language.python.definition ⟨.ofText "m.py", nestedSource⟩ outer = .ok (some
      (.function "f", ⟨⟨.ofText "m.py", 1, 0, 4, 7, 0, 41⟩, none,
        [⟨.function "h", ⟨.ofText "m.py", 3, 8, 3, 11, 30, 33⟩⟩,
         ⟨.function "g", ⟨.ofText "m.py", 4, 4, 4, 7, 38, 41⟩⟩], none, none⟩)) :=
    ok_of_toOption (by decide +kernel)
  refine ⟨hreads, x, ix, hx, hix, (hcallers _ _ _ _).2 ?_, (hcallers _ _ _ _).2 ?_⟩
  · exact ⟨outer, List.get_mem _ _, ⟨_, houter, rfl⟩, _, rfl, n, .head _, _, hcall, rfl⟩
  · exact ⟨inner, List.get_mem _ _, ⟨_, hinner, rfl⟩, _, rfl, n, .head _, _, hcall, rfl⟩

end CallAtlas
