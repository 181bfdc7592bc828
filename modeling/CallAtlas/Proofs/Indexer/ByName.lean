import CallAtlas.Indexer
import CallAtlas.Library.Standard
import CallAtlas.Proofs.Index.Additions

/-! # Looking a name up

There are two ways to look a name up. A question for the name goes through all symbols
(`answer_byName`), and finding the definitions or the references of a name fetches one symbol, the
function of that name (`told_function`). Both tell a part of the `namesakes`, the symbols of the
name with what is known about them.

* `find_byName_iff`: what is found is what the question about functions tells, and it is all that
  the question about all symbols tells iff nothing is known of the methods of that name. -/

namespace CallAtlas

/-- What answers tell of one sort, symbol by symbol. -/
def told {β : Type} (records : Info → List β) (answers : List Answer) : List β :=
  answers.flatMap fun a => records a.2

namespace Index

variable {ix : Index} {β : Type}

/-- The symbols of a name with what is known about them, functions and methods alike. -/
def namesakes (ix : Index) (name : Text) : List Answer :=
  ix.items.filter fun a => a.1.name == name

/-- A question for a name goes through all symbols. -/
theorem answer_byName [Library] (ix : Index) (name : Text) (filter : SymbolFilter) :
    ix.answer (.byName name filter) =
      .ok ((ix.namesakes name).filter fun a => filter.admits a.1) := by
  rw [namesakes, List.filter_filter]
  cases ix <;> simp only [answer, Listed.answer, Linked.answer, Query.test, Bool.and_comm] <;> rfl

/-- One symbol is fetched as the entry that has it. -/
theorem filter_items (ix : Index) (s : Symbol) :
    ix.items.filter (fun a => decide (a.1 = s)) = ((ix.info? s).map fun i => (s, i)).toList := by
  cases ix with
  | listed ix => exact OrderedMap.filter_entries ix.infos s
  | linked ix =>
    have hentries := congrArg (List.map fun e => (e.1, e.2.toInfo))
      (OrderedMap.filter_entries ix.cards s)
    rw [items, Linked.items, List.filter_map, info?, Linked.info?]
    refine hentries.trans ?_
    cases ix.cards.get? s <;> rfl

/-- The function of a name is the one among its namesakes that is no method. -/
theorem filter_namesakes (ix : Index) (name : Text) :
    (ix.namesakes name).filter (fun a => a.1.isFunction) =
      ((ix.info? (.function name)).map fun i => (.function name, i)).toList := by
  rw [namesakes, List.filter_filter, ← filter_items]
  refine List.filter_congr fun a _ => ?_
  rw [Bool.eq_iff_iff]
  cases a.1 <;> simp [Symbol.isFunction, Symbol.name]

theorem told_function (ix : Index) (name : Text) (records : Info → List β) :
    told records ((ix.namesakes name).filter fun a => a.1.isFunction) =
      ((ix.info? (.function name)).map records).getD [] := by
  rw [filter_namesakes]
  cases ix.info? (.function name) <;> simp [told]

end Index

/-- Some answers tell all that there is iff the others tell nothing. -/
theorem told_filter_perm_iff {β : Type} (records : Info → List β) (answers : List Answer)
    (p : Answer → Bool) : (told records (answers.filter p)).Perm (told records answers) ↔
      ∀ a ∈ answers, p a = false → records a.2 = [] := by
  have hsplit : (told records (answers.filter p) ++
      told records (answers.filter fun a => !p a)).Perm (told records answers) := by
    rw [told, told, ← List.flatMap_append]
    exact (List.filter_append_perm p answers).flatMap_right _
  have hnone : told records (answers.filter fun a => !p a) = [] ↔
      ∀ a ∈ answers, p a = false → records a.2 = [] := by
    simp [told, List.flatMap_eq_nil_iff]
  rw [← hnone]
  constructor
  · intro hperm
    have hlength := hsplit.length_eq.trans hperm.length_eq.symm
    rw [List.length_append] at hlength
    exact List.length_eq_zero_iff.1 (by omega)
  · intro hrest
    rw [hrest, List.append_nil] at hsplit
    exact hsplit

namespace Indexer

theorem findDefinitions_eq (x : Indexer) (name : Text) : x.findDefinitions name =
    told Info.definitions ((x.index.namesakes name).filter fun a => a.1.isFunction) := by
  rw [Index.told_function, findDefinitions]
  cases x.index <;> rfl

theorem findReferences_eq (x : Indexer) (name : Text) : x.findReferences name =
    told Info.references ((x.index.namesakes name).filter fun a => a.1.isFunction) := by
  rw [Index.told_function, findReferences]
  cases x.index <;> rfl

/-- `findDefinitions` and `findReferences` tell what is known of the function of a name. All
definitions that the query `.byName name .all` knows are found, each as often as it is kept, iff no
method of that name has a definition, and all references iff no method of that name has a reference.
-/
theorem find_byName_iff [Library] (x : Indexer) (name : Text) : ∃ functions all,
    x.index.answer (.byName name .functions) = .ok functions ∧
    x.index.answer (.byName name .all) = .ok all ∧
    (∀ a, a ∈ all ↔ a ∈ x.index.items ∧ a.1.name = name) ∧
    x.findDefinitions name = told Info.definitions functions ∧
    x.findReferences name = told Info.references functions ∧
    ((x.findDefinitions name).Perm (told Info.definitions all) ↔
      ∀ a ∈ all, a.1.isFunction = false → a.2.definitions = []) ∧
    ((x.findReferences name).Perm (told Info.references all) ↔
      ∀ a ∈ all, a.1.isFunction = false → a.2.references = []) := by
  have hfunctions : x.index.answer (.byName name .functions) =
      .ok ((x.index.namesakes name).filter fun a => a.1.isFunction) := by
    rw [Index.answer_byName]
    congr 2
    funext a
    cases a.1 <;> rfl
  have hall : x.index.answer (.byName name .all) = .ok (x.index.namesakes name) := by
    rw [Index.answer_byName]
    exact congrArg Except.ok (List.filter_eq_self.2 fun _ _ => rfl)
  have hmem : ∀ a, a ∈ x.index.namesakes name ↔ a ∈ x.index.items ∧ a.1.name = name := by
    simp [Index.namesakes]
  refine ⟨_, _, hfunctions, hall, hmem, findDefinitions_eq x name, findReferences_eq x name, ?_, ?_⟩
  · rw [findDefinitions_eq]
    exact told_filter_perm_iff _ _ _
  · rw [findReferences_eq]
    exact told_filter_perm_iff _ _ _

/-- A function and a method of one name, each defined once. -/
def twoNamesakes (kind : IndexKind) : Indexer :=
  ((start .bare kind true).addDefinition (.function "foo") (.bare (Linked.lineAt 1))).addDefinition
    (.method "foo" (some "A")) (.bare (Linked.lineAt 2))

/-- In an index of either kind the definition of the method is not found. There are no references,
and so none is missed. -/
theorem find_byName_iff_twoNamesakes :
    letI := Library.standard
    (∃ all, (twoNamesakes .listed).index.answer (.byName "foo" .all) = .ok all ∧
      (twoNamesakes .listed).findDefinitions "foo" = [.bare (Linked.lineAt 1)] ∧
      ¬ ((twoNamesakes .listed).findDefinitions "foo").Perm (told Info.definitions all) ∧
      ((twoNamesakes .listed).findReferences "foo").Perm (told Info.references all)) ∧
    ∃ all, (twoNamesakes .linked).index.answer (.byName "foo" .all) = .ok all ∧
      (twoNamesakes .linked).findDefinitions "foo" = [.bare (Linked.lineAt 1)] ∧
      ¬ ((twoNamesakes .linked).findDefinitions "foo").Perm (told Info.definitions all) ∧
      ((twoNamesakes .linked).findReferences "foo").Perm (told Info.references all) := by
  let _ := Library.standard
  have hboth : ∀ kind, (twoNamesakes kind).index.items =
      [(.function "foo", ⟨[.bare (Linked.lineAt 1)], []⟩),
       (.method "foo" (some "A"), ⟨[.bare (Linked.lineAt 2)], []⟩)] := by
    intro kind
    cases kind <;> decide +kernel
  have hmissed : ∀ kind, ∃ all, (twoNamesakes kind).index.answer (.byName "foo" .all) = .ok all ∧
      (twoNamesakes kind).findDefinitions "foo" = [.bare (Linked.lineAt 1)] ∧
      ¬ ((twoNamesakes kind).findDefinitions "foo").Perm (told Info.definitions all) ∧
      ((twoNamesakes kind).findReferences "foo").Perm (told Info.references all) := by
    intro kind
    obtain ⟨_, all, -, hall, hmem, -, -, hdefinitions, hreferences⟩ :=
      find_byName_iff (twoNamesakes kind) "foo"
    refine ⟨all, hall, by cases kind <;> decide +kernel, fun hperm => ?_, hreferences.2 ?_⟩
    · have hmethod := (hmem (.method "foo" (some "A"), ⟨[.bare (Linked.lineAt 2)], []⟩)).2
        ⟨by simp [hboth], rfl⟩
      cases hdefinitions.1 hperm _ hmethod rfl
    · intro a ha _
      have hitem := ((hmem a).1 ha).1
      rw [hboth] at hitem
      simp only [List.mem_cons, List.not_mem_nil, or_false] at hitem
      rcases hitem with rfl | rfl <;> rfl
  exact ⟨hmissed .listed, hmissed .linked⟩

end Indexer

end CallAtlas
