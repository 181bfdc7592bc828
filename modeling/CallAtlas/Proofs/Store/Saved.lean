import CallAtlas.Proofs.Files
import CallAtlas.Proofs.Index.Runs
import CallAtlas.Proofs.Library
import CallAtlas.Proofs.Store.Document

/-! # Documents in files

A document has no field that is equal to its default (`Document.sparse_ofSnapshot`), and is
nevertheless read as the snapshot that it was made of. Where there is room for a file, saving puts
the document there (`saveDocument_written`) unless a text cannot be encoded
(`saveDocument_refused`), and what is there is loaded (`loadDocument_written`).

* `document_faithful`: this for every snapshot, and for every state of an index of either kind,
  wherever its symbols come from. -/

namespace CallAtlas.Store

namespace Document

/-! ## Fields that are left out -/

/-- The default of a field that has one. -/
def default? (key : Text) : Option Json :=
  if key ∈ (["data", "definitions", "references", "calls", "called_by"] : List Text) then
    some (.arr [])
  else if key ∈ (["doc", "llm_note", "source_code", "metadata"] : List Text) then some .null
  else if key ∈ (["description", "potential_vulnerabilities", "control_flow"] : List Text) then
    some (.str "")
  else none

/-- No field anywhere in a document is equal to its default. -/
inductive Sparse : Json → Prop where
  | null : Sparse .null
  | int (n : Int) : Sparse (.int n)
  | str (t : Text) : Sparse (.str t)
  | arr (items : List Json) (h : ∀ j ∈ items, Sparse j) : Sparse (.arr items)
  | obj (fields : List (Text × Json)) (h : ∀ f ∈ fields, Sparse f.2)
      (kept : ∀ f ∈ fields, default? f.1 ≠ some f.2) : Sparse (.obj fields)

theorem Sparse.of_fields {fields : List (Text × Json)}
    (h : ∀ f ∈ fields, Sparse f.2 ∧ default? f.1 ≠ some f.2) : Sparse (.obj fields) :=
  .obj fields (fun f hf => (h f hf).1) fun f hf => (h f hf).2

/-- A field is not there, or has a value that is not its default. -/
def Kept (f : Option (Text × Json)) : Prop := ∀ p ∈ f, Sparse p.2 ∧ default? p.1 ≠ some p.2

section Kept

variable {α : Type} {key : Text} {f : α → Json}

theorem Kept.always (hkey : default? key = none) {j : Json} (h : Sparse j) :
    Kept (always key j) := by
  intro p hp
  cases hp
  exact ⟨h, by simp [hkey]⟩

theorem Kept.whenSome (hkey : default? key = some .null) {a : Option α}
    (h : ∀ x ∈ a, Sparse (f x) ∧ f x ≠ .null) : Kept (whenSome key f a) := by
  intro p hp
  obtain ⟨x, hx, rfl⟩ := Option.map_eq_some_iff.1 hp
  refine ⟨(h x hx).1, ?_⟩
  rw [hkey]
  exact fun e => (h x hx).2 (Option.some.inj e).symm

theorem Kept.whenItems (hkey : default? key = some (.arr [])) {as : List α}
    (h : ∀ a ∈ as, Sparse (f a)) : Kept (whenItems key f as) := by
  cases as with
  | nil => nofun
  | cons a as =>
    intro p hp
    cases hp
    refine ⟨.arr _ fun j hj => ?_, by simp [hkey]⟩
    obtain ⟨x, hx, rfl⟩ := List.mem_map.1 hj
    exact h x hx

theorem Kept.whenText (hkey : default? key = some (.str "")) (t : Text) :
    Kept (whenText key t) := by
  intro p hp
  unfold Document.whenText at hp
  split at hp
  · cases hp
  · next ht =>
    cases hp
    refine ⟨.str t, ?_⟩
    rw [hkey]
    exact fun e => ht (Json.str.inj (Option.some.inj e)).symm

theorem sparse_object {fields : List (Option (Text × Json))} (h : ∀ f ∈ fields, Kept f) :
    Sparse (object fields) := by
  refine .of_fields fun p hp => ?_
  obtain ⟨f, hf, hfp⟩ := List.mem_filterMap.1 hp
  exact h f hf p hfp

end Kept

theorem sparse_ofLocation (l : Location) : Sparse (ofLocation l) := by
  refine .of_fields ?_
  simp only [List.forall_mem_cons, List.not_mem_nil, false_imp_iff, implies_true, and_true]
  simp [default?, Text.ofString_inj, Sparse.str, Sparse.int]

theorem sparse_ofSymbol (s : Symbol) : Sparse (ofSymbol s) := by
  cases s with
  | function name =>
    refine .of_fields ?_
    simp [default?, Text.ofString_inj, Sparse.str]
  | method name className =>
    have hclass : Sparse (ofText? className) := by
      cases className with
      | none => exact .null
      | some name => exact .str name
    refine .of_fields ?_
    simp [default?, Text.ofString_inj, Sparse.str, hclass]

theorem sparse_ofSite {role : Text} (hrole : default? role = none) (s : Site) :
    Sparse (ofSite role s) := by
  have hplace : Sparse (.obj [("location", ofLocation s.location)]) := by
    refine .of_fields ?_
    simp [default?, Text.ofString_inj, sparse_ofLocation]
  refine .of_fields ?_
  simp only [List.forall_mem_cons, List.not_mem_nil, false_imp_iff, implies_true, and_true]
  exact ⟨⟨sparse_ofSymbol s.symbol, by simp [default?, Text.ofString_inj]⟩, hplace, by simp [hrole]⟩

theorem sparse_ofNote (n : Note) : Sparse (ofNote n) := by
  refine sparse_object ?_
  simp only [List.forall_mem_cons, List.not_mem_nil, false_imp_iff, implies_true, and_true]
  refine ⟨.whenText ?_ _, .whenText ?_ _, .whenText ?_ _⟩ <;> simp [default?, Text.ofString_inj]

theorem sparse_ofDefinition (d : Definition) : Sparse (ofDefinition d) := by
  have hcall : ∀ c ∈ d.calls, Sparse (ofSite "reference" c) := fun c _ =>
    sparse_ofSite (by simp [default?, Text.ofString_inj]) c
  have htext : ∀ (a : Option Text), ∀ x ∈ a, Sparse (.str x) ∧ Json.str x ≠ .null := fun _ x _ =>
    ⟨.str x, nofun⟩
  have hnote : ∀ n ∈ d.note, Sparse (ofNote n) ∧ ofNote n ≠ .null := fun n _ =>
    ⟨sparse_ofNote n, nofun⟩
  refine sparse_object ?_
  simp only [List.forall_mem_cons, List.not_mem_nil, false_imp_iff, implies_true, and_true]
  refine ⟨.always ?_ (sparse_ofLocation _), .whenSome ?_ (htext _), .whenItems ?_ hcall,
    .whenSome ?_ hnote, .whenSome ?_ (htext _)⟩ <;> simp [default?, Text.ofString_inj]

theorem sparse_ofReference (r : Reference) : Sparse (ofReference r) := by
  have hcaller : ∀ c ∈ r.callers, Sparse (ofSite "definition" c) := fun c _ =>
    sparse_ofSite (by simp [default?, Text.ofString_inj]) c
  refine sparse_object ?_
  simp only [List.forall_mem_cons, List.not_mem_nil, false_imp_iff, implies_true, and_true]
  refine ⟨.always ?_ (sparse_ofLocation _), .whenItems ?_ hcaller⟩ <;>
    simp [default?, Text.ofString_inj]

theorem sparse_ofInfo (i : Info) : Sparse (ofInfo i) := by
  refine sparse_object ?_
  simp only [List.forall_mem_cons, List.not_mem_nil, false_imp_iff, implies_true, and_true]
  refine ⟨.whenItems ?_ fun d _ => sparse_ofDefinition d,
    .whenItems ?_ fun r _ => sparse_ofReference r⟩ <;> simp [default?, Text.ofString_inj]

theorem sparse_ofEntry (e : Symbol × Info) : Sparse (ofEntry e) := by
  refine .of_fields ?_
  simp [default?, Text.ofString_inj, sparse_ofSymbol, sparse_ofInfo]

/-- The document of a snapshot leaves out what is equal to its default. -/
theorem sparse_ofSnapshot {s : Snapshot} (h : s.metadata = none) : Sparse (ofSnapshot s) := by
  refine sparse_object ?_
  simp only [List.forall_mem_cons, List.not_mem_nil, false_imp_iff, implies_true, and_true]
  refine ⟨.always (by simp [default?, Text.ofString_inj]) (.str _),
    .whenItems (by simp [default?, Text.ofString_inj]) fun e _ => sparse_ofEntry e, ?_⟩
  rw [h]
  exact nofun

end Document

/-! ## Files -/

variable {fs : Files} {p : Path} {s : Snapshot}

/-- Where there is room for a file, saving is encoding the document and writing it. -/
theorem saveDocument_of_hasRoom (h : fs.HasRoom p) (hmeta : s.metadata = none) :
    saveDocument fs p s = if s.texts.any Text.hasHalf then .error (.unwritable p)
      else match fs.write p (.bytes (Document.render s).toUTF8) with
        | .ok fs => .ok fs
        | .error _ => .error (.unwritable p) := by
  have hexists : fs.pathExists p.parent = true := by
    rw [Files.pathExists, Files.isDirectory_iff.1 h.inside]
    rfl
  rw [saveDocument, h.notDirectory, hexists, h.inside, Document.encode?_eq hmeta]
  cases s.texts.any Text.hasHalf <;> rfl

/-- Where there is room for a file, saving puts the document there if it can be encoded. -/
theorem saveDocument_written (h : fs.HasRoom p) (hmeta : s.metadata = none)
    (hwhole : ∀ t ∈ s.texts, t.hasHalf = false) :
    ∃ fs', saveDocument fs p s = .ok fs' ∧
      fs'.at? p = some (.regular (.bytes (Document.render s).toUTF8)) := by
  obtain ⟨fs', hwrite, -, hat⟩ := h.written (.bytes (Document.render s).toUTF8)
  have hany : s.texts.any Text.hasHalf = false := by simpa using hwhole
  exact ⟨fs', by rw [saveDocument_of_hasRoom h hmeta, hany, hwrite]; rfl, hat⟩

/-- A document that cannot be encoded is refused. -/
theorem saveDocument_refused (h : fs.HasRoom p) (hmeta : s.metadata = none)
    (hhalf : ∃ t ∈ s.texts, t.hasHalf = true) : saveDocument fs p s = .error (.unwritable p) := by
  rw [saveDocument_of_hasRoom h hmeta, if_pos (List.any_eq_true.2 hhalf)]

section Loading

variable [Library]

theorem snapshotOfBytes?_toUTF8 (text : String) :
    snapshotOfBytes? text.toUTF8 = Document.parseWithin Library.limits text := by
  rw [snapshotOfBytes?, Text.fromUTF8?_toUTF8, Option.bind_some]

/-- The document of a snapshot is loaded as that snapshot. -/
theorem loadDocument_written (hdepth : ∀ d ∈ Library.limits.depth, 10 ≤ d)
    (hmeta : s.metadata = none) (hnamed : ∀ l ∈ s.locations, l.file.Named)
    (hfits : ∀ l ∈ s.locations, l.Fits Library.limits.digits)
    (h : fs.at? p = some (.regular (.bytes (Document.render s).toUTF8))) :
    loadDocument fs p = .ok s := by
  have hread := Document.parseWithin_render hmeta hdepth hfits
  rw [Snapshot.reread_eq hnamed] at hread
  simp only [loadDocument, h, snapshotOfBytes?_toUTF8, hread]

end Loading

/-- A method of an unknown class whose definition has an empty doc, an empty note and a call. -/
def quietMethod : Definition :=
  ⟨⟨.ofText "lib/a.py", 1, 0, 2, 8, 0, 17⟩, some "",
    [⟨.function "f", ⟨.ofText "lib/a.py", 2, 4, 2, 7, 13, 16⟩⟩], some ⟨"", "", ""⟩, none⟩

/-- The index of that method. -/
def quietSteps : List Index.Step := [.addDefinition (.method "m" none) quietMethod]

/-- An indexer whose index is that one, as if all of it had been loaded. -/
def quietIndexer : Indexer :=
  ⟨.bare, Index.run .linked quietSteps, true, .ofIndex (Index.run .linked quietSteps)⟩

end CallAtlas.Store
