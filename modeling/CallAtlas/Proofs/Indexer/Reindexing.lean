import CallAtlas.Proofs.Index.Replays
import CallAtlas.Proofs.Indexer.Containment

/-! # Indexing a project again

Whatever indexing does to an index, it does by adding records, and neither these nor its success
depend on the index (`Indexer.Adds`). So it adds the same records when the files have not changed,
and the index knows all of them by then (`Linked.cards_again`): no record that is read off a file
carries a note, so this holds even if definitions have been given notes in between.

* `indexProject_again`: indexing a project a second time leaves the index as it is. -/

namespace CallAtlas

open Linked (Record)

/-! ## Records of files -/

/-- The definitions and then the calls of a tree. -/
def Language.records (l : Language) (s : Source) (root : Tree) : List Record :=
  (l.definitionsRead s (l.definitionNodes root)).map (fun e => .definition e.1 e.2) ++
    (l.callsRead s (l.callNodes root)).map fun e => .reference e.1 e.2

theorem Language.silent_of_mem_records {l : Language} (hl : l ∈ Language.all) {s : Source}
    {root : Tree} {r : Record} (hr : r ∈ l.records s root) : r.Silent := by
  rcases List.mem_append.1 hr with hr | hr
  · obtain ⟨e, he, rfl⟩ := List.mem_map.1 hr
    obtain ⟨c, -, hc⟩ := Language.mem_allRead.1 he
    exact Language.note_of_mem_all hl hc
  · obtain ⟨e, -, rfl⟩ := List.mem_map.1 hr
    trivial

namespace Indexer

variable {x y : Indexer} {ε : Type}

/-- The records of a file. -/
def fileRecords (x : Indexer) (parse : Parser) (fs : Files) (project file : Path) : List Record :=
  match bytesAt? fs file, x.recordedPath file project with
  | some bytes, .ok recorded => x.language.records ⟨recorded, bytes⟩ (parse bytes)
  | _, _ => []

/-- The records of the files of a project. -/
def projectRecords (x : Indexer) (parse : Parser) (fs : Files) (project : Path) : List Record :=
  (projectFiles x.language fs project).flatMap (x.fileRecords parse fs project)

theorem silent_of_mem_projectRecords (hl : x.language ∈ Language.all) {parse : Parser}
    {fs : Files} {project : Path} {r : Record} (hr : r ∈ x.projectRecords parse fs project) :
    r.Silent := by
  obtain ⟨file, -, hr⟩ := List.mem_flatMap.1 hr
  rw [fileRecords] at hr
  split at hr
  · exact Language.silent_of_mem_records hl hr
  · cases hr

/-- Adds a record. -/
def add (x : Indexer) : Record → Indexer
  | .definition s d => x.addDefinition s d
  | .reference s r => x.addReference s r

/-- Adds notes on definitions, one after the other. -/
def addNotes (x : Indexer) (notes : List (Site × Note)) : Indexer :=
  notes.foldl (fun x n =>
    x.addDefinition n.1.symbol ((Definition.bare n.1.location).setNote (some n.2))) x

theorem addNotes_eq (x : Indexer) (notes : List (Site × Note)) : x.addNotes notes =
    (notes.map fun n => Record.definition n.1.symbol
      ((Definition.bare n.1.location).setNote (some n.2))).foldl add x := by
  rw [List.foldl_map]
  rfl

/-- Two indexers read files in the same way. -/
structure ReadsAlike (x y : Indexer) : Prop where
  language : y.language = x.language
  relativePaths : y.relativePaths = x.relativePaths

theorem ReadsAlike.add (h : ReadsAlike x y) (r : Record) : ReadsAlike x (y.add r) := by
  cases r <;> exact ⟨h.language, h.relativePaths⟩

theorem ReadsAlike.foldl_add (h : ReadsAlike x y) (rs : List Record) :
    ReadsAlike x (rs.foldl Indexer.add y) := by
  induction rs generalizing y with
  | nil => exact h
  | cons r rs ih => exact ih (h.add r)

theorem ReadsAlike.recordedPath (h : ReadsAlike x y) (file project : Path) :
    y.recordedPath file project = x.recordedPath file project := by
  simp only [Indexer.recordedPath, h.relativePaths]

theorem index_foldl_add {ix : Linked} (hx : x.index = .linked ix) (rs : List Record) :
    (rs.foldl add x).index = .linked (rs.foldl Record.add ix) := by
  induction rs generalizing x ix with
  | nil => exact hx
  | cons r rs ih =>
    refine ih ?_
    cases r with
    | definition s d => rw [add, addDefinition, hx]; rfl
    | reference s r => rw [add, addReference, hx]; rfl

/-! ## What indexing adds -/

/-- A part of indexing adds just these records, or else it fails, whatever the index. -/
def Adds (x : Indexer) (rs : List Record) (f : Indexer → Indexer × Option ε) : Prop :=
  (∀ y, ReadsAlike x y → f y = (rs.foldl add y, none)) ∨ ∀ y, ReadsAlike x y → (f y).2.isSome

section
variable {rs rs' : List Record} {f g h : Indexer → Indexer × Option ε}

theorem Adds.congr (hf : Adds x rs f) (hfg : ∀ y, ReadsAlike x y → g y = f y) : Adds x rs g :=
  hf.imp (fun hf y hy => (hfg y hy).trans (hf y hy)) fun hf y hy => hfg y hy ▸ hf y hy

theorem Adds.cons {r : Record} (hf : Adds x rs f)
    (hfg : ∀ y, ReadsAlike x y → g y = f (y.add r)) : Adds x (r :: rs) g :=
  hf.imp (fun hf y hy => (hfg y hy).trans (hf _ (hy.add r)))
    fun hf y hy => hfg y hy ▸ hf _ (hy.add r)

/-- One part after another that has not failed. -/
theorem Adds.seq (hf : Adds x rs f) (hg : Adds x rs' g)
    (hfail : ∀ y y' e, ReadsAlike x y → f y = (y', some e) → (h y).2.isSome)
    (hgo : ∀ y y', ReadsAlike x y → ReadsAlike x y' → f y = (y', none) → h y = g y') :
    Adds x (rs ++ rs') h := by
  rcases hf with hf | hf
  · have hnext : ∀ y, ReadsAlike x y → h y = g (rs.foldl add y) := fun y hy =>
      hgo _ _ hy (hy.foldl_add rs) (hf y hy)
    rcases hg with hg | hg
    · refine .inl fun y hy => ?_
      rw [hnext y hy, hg _ (hy.foldl_add rs), List.foldl_append]
    · refine .inr fun y hy => ?_
      rw [hnext y hy]
      exact hg _ (hy.foldl_add rs)
  · refine .inr fun y hy => ?_
    obtain ⟨e, he⟩ := Option.isSome_iff_exists.1 (hf y hy)
    exact hfail y (f y).1 e hy (Prod.ext rfl he)

end

theorem adds_addEach (x : Indexer) {ν α : Type}
    {read : Language → ν → Except ReadFault (Option (Symbol × α))}
    {put : Indexer → Symbol → α → Indexer} {record : Symbol × α → Record}
    (hput : ∀ y e, put y e.1 e.2 = y.add (record e)) (nodes : List ν) :
    Adds x ((Language.allRead (read x.language) nodes).map record) (addEach read put nodes) := by
  induction nodes with
  | nil => exact .inl fun _ _ => rfl
  | cons n nodes ih =>
    rw [Language.allRead, List.filterMap_cons]
    cases hn : read x.language n with
    | error e =>
      refine .inr fun y hy => ?_
      rw [addEach, hy.language, hn]
      rfl
    | ok found =>
      cases found with
      | none =>
        refine ih.congr fun y hy => ?_
        rw [addEach, hy.language, hn]
      | some e =>
        refine ih.cons fun y hy => ?_
        rw [addEach, hy.language, hn, ← hput]

theorem adds_addTree (x : Indexer) (s : Source) (root : Tree) :
    Adds x (x.language.records s root) fun y => y.addTree s root := by
  have hdefinitions : Adds x ((x.language.definitionsRead s (x.language.definitionNodes root)).map
      fun e => .definition e.1 e.2) (addDefinitions s (x.language.definitionNodes root)) :=
    adds_addEach x (fun _ _ => rfl) _
  have hreferences : Adds x ((x.language.callsRead s (x.language.callNodes root)).map
      fun e => .reference e.1 e.2) (addReferences s (x.language.callNodes root)) :=
    adds_addEach x (fun _ _ => rfl) _
  refine hdefinitions.seq hreferences ?_ ?_
  · intro y y' e hy h
    simp only [addTree, hy.language, h, Option.isSome_some]
  · intro y y' hy hy' h
    simp only [addTree, hy.language, h, hy'.language]

theorem adds_indexFile (x : Indexer) (parse : Parser) (fs : Files) (file project : Path) :
    Adds x (x.fileRecords parse fs project file) fun y => y.indexFile parse fs file project := by
  unfold fileRecords
  cases hb : bytesAt? fs file with
  | none =>
    refine .inl fun y _ => ?_
    simp only [indexFile, hb, List.foldl_nil]
  | some bytes =>
    cases hp : x.recordedPath file project with
    | error e =>
      refine .inr fun y hy => ?_
      simp only [indexFile, hb, hy.recordedPath, hp, Option.isSome_some]
    | ok recorded =>
      rcases adds_addTree x ⟨recorded, bytes⟩ (parse bytes) with h | h
      · refine .inl fun y hy => ?_
        simp only [indexFile, hb, hy.recordedPath, hp, h y hy, Prod.map, id, Option.map_none]
      · refine .inr fun y hy => ?_
        simp only [indexFile, hb, hy.recordedPath, hp, Prod.map, Option.isSome_map, h y hy]

theorem adds_indexFiles (x : Indexer) (parse : Parser) (fs : Files) (project : Path)
    (files : List Path) : Adds x (files.flatMap (x.fileRecords parse fs project))
      (indexFiles parse fs project files) := by
  induction files with
  | nil => exact .inl fun _ _ => rfl
  | cons file files ih =>
    refine (adds_indexFile x parse fs file project).seq ih ?_ ?_
    · intro y y' e _ h
      simp only [indexFiles, h, Option.isSome_some]
    · intro y y' _ _ h
      simp only [indexFiles, h]

theorem adds_indexProject (x : Indexer) (parse : Parser) (fs : Files) (project : Path) :
    Adds x (x.projectRecords parse fs project) fun y => y.indexProject parse fs project := by
  refine (adds_indexFiles x parse fs project (projectFiles x.language fs project)).congr ?_
  intro y hy
  simp only [indexProject, hy.language]

/-! ## Indexing again -/

/-- An `indexProject` into a linked index that comes to its end adds the `projectRecords`. Once any
notes have been added too (`addNotes`), indexing again comes to its end as well and leaves the
snapshot as it is: all symbols, definitions, docs, notes, calls, references and callers, in their
order. Without notes even the table of owners is the same. -/
theorem indexProject_again {x x₁ : Indexer} (hl : x.language ∈ Language.all)
    (hkind : x.index.kind = .linked) {parse : Parser} {fs : Files} {project : Path}
    (h : x.indexProject parse fs project = (x₁, none)) (notes : List (Site × Note)) :
    x₁ = (x.projectRecords parse fs project).foldl add x ∧
    ∃ x₂, (x₁.addNotes notes).indexProject parse fs project = (x₂, none) ∧
      x₂.index.snapshot = (x₁.addNotes notes).index.snapshot ∧
      (notes = [] → x₂.index = x₁.index) := by
  obtain ⟨ix, hx⟩ : ∃ ix, x.index = .linked ix := by
    cases hx : x.index with
    | listed ix => rw [hx] at hkind; cases hkind
    | linked ix => exact ⟨ix, rfl⟩
  have halike : ReadsAlike x x := ⟨rfl, rfl⟩
  have hs : ∀ r ∈ x.projectRecords parse fs project, r.Silent := fun r hr =>
    silent_of_mem_projectRecords hl hr
  have hadds := adds_indexProject x parse fs project
  generalize x.projectRecords parse fs project = rs at hs hadds ⊢
  -- the first run has come to its end, so every run does
  have hruns : ∀ y, ReadsAlike x y → y.indexProject parse fs project = (rs.foldl add y, none) := by
    rcases hadds with hruns | hfails
    · exact hruns
    · have hfail := hfails x halike
      simp only [h, Option.isSome_none, Bool.false_eq_true] at hfail
  obtain rfl : x₁ = rs.foldl add x := by
    rw [hruns x halike] at h
    exact (Prod.ext_iff.1 h).1.symm
  obtain ⟨xs, hxs⟩ : ∃ xs : List Record, ∀ x : Indexer, x.addNotes notes = xs.foldl add x :=
    ⟨_, fun x => addNotes_eq x notes⟩
  have hindex := index_foldl_add (index_foldl_add hx rs) xs
  rw [hxs]
  refine ⟨rfl, _, hruns _ ((halike.foldl_add rs).foldl_add xs), ?_, fun hnil => ?_⟩
  · rw [index_foldl_add hindex, hindex]
    simp only [Index.snapshot, Linked.snapshot, Linked.items, Linked.cards_again hs]
  · have hnone : xs.foldl add (rs.foldl add x) = rs.foldl add x := by
      rw [← hxs, hnil]
      rfl
    rw [hnone, index_foldl_add (index_foldl_add hx rs), index_foldl_add hx, Linked.again hs]

/-- The inner one of two nested definitions, with a note on it. -/
def innerNote : List (Site × Note) :=
  [(⟨.function "g", ⟨.ofText "m.py", 2, 4, 3, 11, 13, 33⟩⟩, ⟨"calls h", "", ""⟩)]

/-- The note is still there after the second run. -/
theorem indexProject_again_nested :
    ∃ x₁ x₂, (start .python .linked false).indexProject (fun _ => nestedTree) nestedFiles
        (.ofText "") = (x₁, none) ∧
      (x₁.addNotes innerNote).indexProject (fun _ => nestedTree) nestedFiles (.ofText "") =
        (x₂, none) ∧
      x₂.index.snapshot = (x₁.addNotes innerNote).index.snapshot ∧
      (x₂.index.definitions (.function "g")).map Definition.note = [some ⟨"calls h", "", ""⟩] := by
  have hfirst : ((start .python .linked false).indexProject (fun _ => nestedTree) nestedFiles
      (.ofText "")).2 = none := by decide +kernel
  obtain ⟨-, x₂, hx₂, hsnapshot, -⟩ := indexProject_again (x := start .python .linked false)
    (.head _) rfl (Prod.ext rfl hfirst) innerNote
  refine ⟨_, x₂, Prod.ext rfl hfirst, hx₂, hsnapshot, ?_⟩
  obtain rfl := (Prod.ext_iff.1 hx₂).1
  decide +kernel

end Indexer

end CallAtlas
