import CallAtlas.Proofs.Files
import CallAtlas.Proofs.Index.Places
import CallAtlas.Service.Describe

/-! # Tools of the service

`Tool.on` is a tool's answer together with the service afterwards, and `Keeps P t` says that `t`
keeps `P`, whether it answers or fails. What a linked index has at all its places it keeps while
files are indexed (`Indexer.Each`), in particular that its records stand at their own places
(`Indexer.Keyed`). A note is taken by putting it into the index it is meant for and keeping the
index that is set up (`on_takeNote`). -/

namespace CallAtlas

/-! ## Tools -/

/-- The answer of a tool, and the service after it. -/
def Tool.on {α : Type} (t : Tool α) (s : Service) : Except ServiceError α × Service := t.run.run s

namespace Service

variable {α β : Type} {s : Service}

@[simp]
theorem on_pure (a : α) : (pure a : Tool α).on s = (.ok a, s) := rfl

@[simp]
theorem on_throw (e : ServiceError) : (throw e : Tool α).on s = (.error e, s) := rfl

@[simp]
theorem on_get : (get : Tool Service).on s = (.ok s, s) := rfl

@[simp]
theorem on_set (s' : Service) : (set s' : Tool Unit).on s = (.ok (), s') := rfl

@[simp]
theorem on_modify (f : Service → Service) : (modify f : Tool Unit).on s = (.ok (), f s) := rfl

@[simp]
theorem on_bind (t : Tool α) (k : α → Tool β) :
    (t >>= k).on s = match t.on s with
      | (.ok a, s) => (k a).on s
      | (.error e, s) => (.error e, s) := by
  simp only [Tool.on, ExceptT.run_bind, StateT.run_bind]
  cases h : (StateT.run (ExceptT.run t) s) with
  | mk r s' => cases r <;> rfl

@[simp]
theorem on_map (f : α → β) (t : Tool α) :
    (f <$> t).on s = match t.on s with
      | (.ok a, s) => (.ok (f a), s)
      | (.error e, s) => (.error e, s) := by
  rw [map_eq_pure_bind, on_bind]
  rfl

@[simp]
theorem on_discard (t : Tool α) :
    (discard t).on s = match t.on s with
      | (.ok _, s) => (.ok (), s)
      | (.error e, s) => (.error e, s) := by
  rw [Functor.discard, LawfulFunctor.map_const]
  exact on_map (fun _ => ()) t

theorem snd_on_discard (t : Tool α) : ((discard t).on s).2 = (t.on s).2 := by
  rw [on_discard]
  rcases t.on s with ⟨e | a, s'⟩ <;> rfl

theorem on_bind_pure (t : Tool α) (b : β) :
    (t >>= fun _ => pure b).on s = ((t.on s).1.map fun _ => b, (t.on s).2) := by
  rw [on_bind]
  rcases t.on s with ⟨e | a, s'⟩ <;> rfl

theorem on_lift {ε : Type} (wrap : ε → ServiceError) (x : Except ε α) :
    (lift wrap x).on s = (x.mapError wrap, s) := by
  cases x <;> rfl

/-- A tool keeps a property of the service, whether it answers or fails. -/
def Keeps (P : Service → Prop) (t : Tool α) : Prop := ∀ s, P s → P (t.on s).2

section Keeps

variable {P : Service → Prop} {t : Tool α} {k : α → Tool β}

theorem keeps_pure (a : α) : Keeps P (pure a : Tool α) := fun _ h => h

theorem keeps_throw (e : ServiceError) : Keeps P (throw e : Tool α) := fun _ h => h

theorem keeps_modify {f : Service → Service} (h : ∀ s, P s → P (f s)) :
    Keeps P (modify f : Tool Unit) := h

theorem Keeps.bind (ht : Keeps P t) (hk : ∀ a, Keeps P (k a)) : Keeps P (t >>= k) := by
  intro s hs
  have hts := ht s hs
  rw [on_bind]
  split
  · next a s' h => rw [h] at hts; exact hk a s' hts
  · next e s' h => rw [h] at hts; exact hts

/-- What is known of the service may be used of the service that is looked at. -/
theorem keeps_get_bind {k : Service → Tool β} (hk : ∀ s, P s → Keeps P (k s)) :
    Keeps P (get >>= k) := by
  intro s hs
  rw [on_bind, on_get]
  exact hk s hs s hs

theorem Keeps.map (ht : Keeps P t) (f : α → β) : Keeps P (f <$> t) := by
  rw [map_eq_pure_bind]
  exact ht.bind fun _ => keeps_pure _

theorem Keeps.discard (ht : Keeps P t) : Keeps P (discard t) := by
  intro s hs
  rw [snd_on_discard]
  exact ht s hs

theorem keeps_lift {ε : Type} (wrap : ε → ServiceError) (x : Except ε α) :
    Keeps P (lift wrap x) := by
  cases x with
  | ok a => exact keeps_pure a
  | error e => exact keeps_throw _

theorem keeps_current (absent : ServiceError) : Keeps P (current absent) := by
  refine keeps_get_bind fun s _ => ?_
  split
  · exact keeps_pure _
  · exact keeps_throw _

end Keeps

end Service

/-! ## Indexers -/

namespace Indexer

variable {x : Indexer}

/-- The index is a linked one whose records meet conditions at their places. -/
def Each (P : Location → Definition → Prop) (Q : Location → Reference → Prop) (x : Indexer) :
    Prop := ∃ ix, x.index = .linked ix ∧ ix.Each P Q

namespace Each

variable {P : Location → Definition → Prop} {Q : Location → Reference → Prop}

theorem start (l : Language) (relativePaths : Bool) :
    (Indexer.start l .linked relativePaths).Each P Q :=
  ⟨.empty, rfl, .empty⟩

variable (hl : Linked.Lasting P Q)

include hl

theorem addDefinition (h : x.Each P Q) (s : Symbol) (d : Definition) :
    (x.addDefinition s d).Each P Q := by
  obtain ⟨ix, hx, hix⟩ := h
  refine ⟨ix.addDefinition s d, ?_, hix.addDefinition hl s d⟩
  rw [Indexer.addDefinition, hx]
  rfl

theorem addReference (h : x.Each P Q) (s : Symbol) (r : Reference) :
    (x.addReference s r).Each P Q := by
  obtain ⟨ix, hx, hix⟩ := h
  refine ⟨ix.addReference s r, ?_, hix.addReference hl s r⟩
  rw [Indexer.addReference, hx]
  rfl

omit hl in
theorem addEach {ν α : Type} {read : Language → ν → Except ReadFault (Option (Symbol × α))}
    {put : Indexer → Symbol → α → Indexer}
    (hput : ∀ x : Indexer, x.Each P Q → ∀ symbol a, (put x symbol a).Each P Q)
    (h : x.Each P Q) (nodes : List ν) : (Indexer.addEach read put nodes x).1.Each P Q := by
  fun_induction Indexer.addEach read put nodes x with
  | case1 => exact h
  | case2 => exact h
  | case3 n nodes x hn ih => exact ih h
  | case4 n nodes x symbol a hn ih => exact ih (hput x h symbol a)

theorem addTree (h : x.Each P Q) (s : Source) (root : Tree) :
    (x.addTree s root).1.Each P Q := by
  have hd : (Indexer.addDefinitions s (x.language.definitionNodes root) x).1.Each P Q :=
    addEach (fun _ hx => hx.addDefinition hl) h _
  unfold Indexer.addTree
  split
  · next heq => rw [heq] at hd; exact hd
  · next heq => rw [heq] at hd; exact addEach (fun _ hx => hx.addReference hl) hd _

theorem indexFile (h : x.Each P Q) (parse : Parser) (fs : Files) (file project : Path) :
    (x.indexFile parse fs file project).1.Each P Q := by
  unfold Indexer.indexFile
  split
  · exact h
  · split
    · exact h
    · exact h.addTree hl _ _

theorem indexFiles (h : x.Each P Q) (parse : Parser) (fs : Files) (project : Path)
    (files : List Path) : (Indexer.indexFiles parse fs project files x).1.Each P Q := by
  induction files generalizing x with
  | nil => exact h
  | cons file files ih =>
    have hf := h.indexFile hl parse fs file project
    unfold Indexer.indexFiles
    split
    · next heq => rw [heq] at hf; exact hf
    · next heq => rw [heq] at hf; exact ih hf

theorem indexProject (h : x.Each P Q) (parse : Parser) (fs : Files) (project : Path) :
    (x.indexProject parse fs project).1.Each P Q :=
  h.indexFiles hl parse fs project _

end Each

/-- The index is a linked one and has its records at their own places. -/
def Keyed (x : Indexer) : Prop := ∃ ix, x.index = .linked ix ∧ ix.Keyed

namespace Keyed

theorem start (l : Language) (relativePaths : Bool) :
    (Indexer.start l .linked relativePaths).Keyed :=
  Each.start l relativePaths

theorem addDefinition (h : x.Keyed) (s : Symbol) (d : Definition) :
    (x.addDefinition s d).Keyed :=
  Each.addDefinition Linked.lasting_keyed h s d

theorem indexProject (h : x.Keyed) (parse : Parser) (fs : Files) (project : Path) :
    (x.indexProject parse fs project).1.Keyed :=
  Each.indexProject Linked.lasting_keyed h parse fs project

/-- A linked index that is loaded has its records at their own places. -/
theorem load [Library] (h : x.Keyed) {fs fs' : Files} {f : Store.Format} {p : Path} {x' : Indexer}
    (hl : x.load fs f p = (fs', .ok x')) : x'.Keyed := by
  obtain ⟨ix, hx, -⟩ := h
  unfold Indexer.load Store.loadIndex at hl
  rw [hx] at hl
  split at hl
  · next fs₁ loaded hload =>
    split at hload
    · cases hload
    · next data _ =>
      cases hl
      cases hload
      exact ⟨_, rfl, Linked.Keyed.load .empty data⟩
  · cases hl

end Keyed

end Indexer

/-! ## Documents of indexes -/

theorem Store.write_of_saveDocument {fs fs' : Files} {p : Path} {data : Snapshot}
    (h : saveDocument fs p data = .ok fs') :
    fs.write p (.bytes (Document.render data).toUTF8) = .ok fs' := by
  unfold saveDocument at h
  iterate 4 (split at h; · cases h)
  next text hencode =>
    have htext : Document.render data = text := by
      rw [Document.encode?, Json.encode?] at hencode
      split at hencode
      · cases hencode
      · exact Option.some.inj hencode
    rw [htext]
    split at h
    · next hw => rw [hw, Except.ok.inj h]
    · cases h

/-- An index that is saved as a document has been written. -/
theorem Indexer.write_of_save [Library] {x : Indexer} {fs fs' : Files} {p : Path}
    (h : x.save fs .document p = (fs', none)) :
    fs.write p (.bytes (Store.Document.render x.index.snapshot).toUTF8) = .ok fs' := by
  unfold Indexer.save Store.save at h
  cases hs : Store.saveDocument fs p x.index.snapshot with
  | error e => rw [hs] at h; cases h
  | ok saved =>
    rw [hs] at h
    split at h
    · next hnone => cases hnone
    · next hsome =>
      cases hsome
      split at h <;> cases h
      exact Store.write_of_saveDocument hs

theorem Files.OneDevice.save [Library] {fs : Files} (h : fs.OneDevice) (x : Indexer) (p : Path) :
    (x.save fs .document p).1.OneDevice := by
  unfold Indexer.save Store.save
  cases hs : Store.saveDocument fs p x.index.snapshot with
  | error e => exact h
  | ok saved =>
    simp only
    split
    · exact h.write (Store.write_of_saveDocument hs)
    · exact h

theorem Indexer.files_of_load [Library] {x : Indexer} {fs : Files} {p : Path} :
    (x.load fs .document p).1 = fs := by
  unfold Indexer.load Store.loadIndex Store.load
  cases Store.loadDocument fs p with
  | error e => rfl
  | ok data =>
    simp only
    split
    · next h => split at h <;> cases h; rfl
    · next h => split at h <;> cases h; rfl

namespace Service

/-! ## The repository and its call graph -/

@[simp]
theorem on_current (absent : ServiceError) {s : Service} :
    (current absent).on s = match s.setup with
      | some st => (.ok st, s)
      | none => (.error absent, s) := by
  rw [current, on_bind, on_get]
  cases h : s.setup <;> simp [h]

/-- A call graph that is not there is built and stays. -/
theorem on_callGraph {s : Service} {st : Setup} {g : Graph.CallGraph} (hsetup : s.setup = some st)
    (hgraph : s.graph = none)
    (hbuild : Graph.build st.indexer.index ⟨true, .forward, [], true⟩ = .ok g) :
    callGraph.on s = (.ok g, { s with graph := some g }) := by
  rw [callGraph, on_bind, on_get]
  simp only [hgraph, index, on_bind, on_current, hsetup, on_pure, hbuild, on_lift, Except.mapError,
    on_modify]

/-- A graph that is remembered does as well, if it is that of the index. -/
theorem on_callGraph_of_current {s : Service} {st : Setup} {g : Graph.CallGraph}
    (hsetup : s.setup = some st)
    (hgraph : ∀ g ∈ s.graph, Graph.build st.indexer.index ⟨true, .forward, [], true⟩ = .ok g)
    (hbuild : Graph.build st.indexer.index ⟨true, .forward, [], true⟩ = .ok g) :
    callGraph.on s = (.ok g, { s with graph := some g }) := by
  cases h : s.graph with
  | none => exact on_callGraph hsetup h hbuild
  | some g' =>
    obtain rfl : g = g' := Except.ok.inj (hbuild.symm.trans (hgraph g' h))
    have hself : s = { s with graph := some g } := by rw [← h]
    rw [callGraph, on_bind, on_get]
    simp only [h, on_pure, ← hself]

theorem on_order {s : Service} {st : Setup} {g : Graph.CallGraph} (hsetup : s.setup = some st)
    (hgraph : s.graph = none)
    (hbuild : Graph.build st.indexer.index ⟨true, .forward, [], true⟩ = .ok g)
    {d : Graph.Direction} {listed : List Location} (hlisted : g.traverse d none = .ok listed) :
    (order d).on s = (.ok listed, { s with graph := some g }) := by
  rw [order, on_bind, on_callGraph hsetup hgraph hbuild]
  simp only [hlisted, on_lift, Except.mapError]

/-! ## Requests for notes -/

theorem resubmit_enqueue (ix : Index) (serial : Nat) (skipNoted : Bool)
    (list : TodoList Site Note Nat) (site : Site) :
    (enqueue ix serial skipNoted list site).resubmit = list.resubmit := by
  unfold enqueue TodoList.add
  split
  · rfl
  · split
    · next h => split at h <;> cases h; rfl
    · rfl

theorem resubmit_foldl_enqueue (ix : Index) (serial : Nat) (skipNoted : Bool) (sites : List Site)
    (list : TodoList Site Note Nat) :
    (sites.foldl (enqueue ix serial skipNoted) list).resubmit = list.resubmit := by
  induction sites generalizing list with
  | nil => rfl
  | cons site sites ih => rw [List.foldl_cons, ih, resubmit_enqueue]

/-! ## Notes -/

/-- The number of the index that a note goes to: that of its task, or else of the index that is set
up. -/
def addressee (list : TodoList Site Note Nat) (site : Site) (st : Setup) : Nat :=
  ((list.find? site).map Task.detail).getD st.serial

theorem keyed_noteInto {st : Setup} (h : st.indexer.Keyed) (serial : Nat) (site : Site) (n : Note) :
    (noteInto serial site n st).indexer.Keyed := by
  unfold noteInto
  split
  · exact h.addDefinition _ _
  · exact h

/-- A task whose list takes notes again passes its note on. -/
theorem submit_react {list : TodoList Site Note Nat} {site : Site} {task : Task Site Note Nat}
    (hfind : list.find? site = some task) (hre : list.resubmit = true) (n : Note)
    (setup : Option Setup) :
    TodoList.submit react site n (list, setup) =
      ((list.complete site n, setup.map (noteInto task.detail site n)), none) := by
  simp [TodoList.submit, hfind, hre, react]

/-- The list after a note on a definition: its task, if there is one, is submitted. -/
def settleTask (list : TodoList Site Note Nat) (site : Site) (n : Note) : TodoList Site Note Nat :=
  if (list.find? site).isSome then list.complete site n else list

theorem resubmit_settleTask (list : TodoList Site Note Nat) (site : Site) (n : Note) :
    (settleTask list site n).resubmit = list.resubmit := by
  unfold settleTask
  split <;> rfl

/-- A note is taken by putting it into the index it is meant for, if that is the one that is set up,
and keeping the index that is set up. -/
theorem on_takeNote [Library] {s : Service} (hre : s.todo.resubmit = true) (site : Site)
    (n : Note) : (takeNote site n).on s = match s.setup with
      | none => (.error .notSetUp, { s with todo := settleTask s.todo site n })
      | some st => (do
          discard persist
          return "Note submitted for " ++ site.symbol.name ++ " at " ++ site.location.toText
          : Tool Text).on { s with
            todo := settleTask s.todo site n
            setup := some (noteInto (addressee s.todo site st) site n st) } := by
  cases hfind : s.todo.find? site with
  | none =>
    cases hst : s.setup with
    | none =>
      simp only [takeNote, on_bind, on_get, hfind, Option.isSome_none, Bool.false_eq_true, if_false,
        on_discard, on_current, hst, settleTask]
      rw [← hst]
    | some st => simp [takeNote, hfind, hst, onIndexer, addressee, noteInto, settleTask]
  | some task =>
    cases hst : s.setup with
    | none => simp [takeNote, hfind, hst, submit_react hfind hre, persist, settleTask]
    | some st => simp [takeNote, hfind, hst, submit_react hfind hre, addressee, settleTask]

theorem on_of_toOption {α : Type} {t : Tool α} {s : Service} {a : α}
    (h : (t.on s).1.toOption = some a) : t.on s = (.ok a, (t.on s).2) :=
  Prod.ext (ok_of_toOption h) rfl

end Service

end CallAtlas
