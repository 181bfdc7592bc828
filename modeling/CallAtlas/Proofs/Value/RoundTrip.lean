import CallAtlas.Proofs.Json.RoundTrip
import CallAtlas.Proofs.Outcome
import CallAtlas.Proofs.Path
import CallAtlas.Value.Document
import Mathlib.Data.List.Perm.Subperm

/-! # Values read back from documents

`Portable c place v`: `v` is made of null, truth values, integers, texts, lists, dictionaries with
texts as keys, paths and records of kinds that `c` registers. Paths stand where a path is declared,
and texts do not; `place` says whether `v` itself stands there. The document of `v` is built into
`reread c v`, in which a path stays a text if its place is declared only by a text, except that a
path is a text until the object around it is complete (`bare`, `BuildsBack`).

* `Portable.exists_encode_iff`: a portable value is written iff its texts and numbers can be and its
  records have all their fields (`IsWritable`).
* `load_write_iff`: it is loaded from the file it was written to iff moreover new records can be
  given all fields of their kinds (`IsMakeable`) and its paths are restored (`IsRestored`). -/

namespace CallAtlas.Value.Document

open Json (Floatless foldWithin foldItemsWithin foldFieldsWithin)

variable {c : Catalog}

/-! ## Parts of values -/

/-- A part stands somewhere in a value. -/
inductive Holds : Value → Value → Prop
  | self (v : Value) : Holds v v
  | item {items : List Value} {v part : Value} (mem : v ∈ items) (h : Holds v part) :
      Holds (.list items) part
  | key {entries : List (Value × Value)} {e : Value × Value} (mem : e ∈ entries) :
      Holds (.table entries) e.1
  | entry {entries : List (Value × Value)} {e : Value × Value} {part : Value}
      (mem : e ∈ entries) (h : Holds e.2 part) : Holds (.table entries) part
  | field {k : Text} {fields : List (Text × Value)} {f : Text × Value} {part : Value}
      (mem : f ∈ fields) (h : Holds f.2 part) : Holds (.record k fields) part

/-- A value has no parts besides itself. -/
def isLeaf : Value → Bool
  | .list _ => false
  | .table _ => false
  | .record _ _ => false
  | _ => true

/-- The fields that a kind of records declares. -/
def declared (c : Catalog) (kind : Text) : List Field := ((c.find? kind).bind Kind.fields).getD []

/-- A text can be written if it holds no half of a pair, an integer if it has not too many digits,
and a record if all fields of its kind are set. -/
def IsWritable (c : Catalog) : Value → Prop
  | .int n => (Text.numeral n.natAbs).length ≤ Text.digitLimit
  | .text s => s.hasHalf = false
  | .path p => p.toText.hasHalf = false
  | .record k fields => ∀ f ∈ declared c k, f.name ∈ fields.map Prod.fst
  | _ => True

/-- A record can be made again if all fields of its kind can be given to a new one. -/
def IsMakeable (c : Catalog) : Value → Prop
  | .record k _ => ∀ f ∈ declared c k, f.init = true
  | _ => True

/-- A text under this name becomes a path in a record whose kind declares these fields. -/
def restores (fields : List Field) (name : Text) : Bool :=
  name == "file_path" || fields.any fun f => f.isPath && f.name == name

/-- The paths among the fields of a record are restored. -/
def IsRestored (c : Catalog) : Value → Prop
  | .record k fields => ∀ f ∈ fields, ∀ p, f.2 = .path p → restores (declared c k) f.1 = true
  | _ => True

section Parts

variable {P : Value → Prop}

theorem forall_holds_leaf {v : Value} (hv : isLeaf v = true) :
    (∀ part, Holds v part → P part) ↔ P v := by
  refine ⟨fun h => h _ (.self _), fun h part hp => ?_⟩
  cases hp with
  | self => exact h
  | _ => cases hv

theorem forall_holds_list {items : List Value} :
    (∀ part, Holds (.list items) part → P part) ↔
      P (.list items) ∧ ∀ v ∈ items, ∀ part, Holds v part → P part := by
  refine ⟨fun h => ⟨h _ (.self _), fun v hv part hp => h _ (.item hv hp)⟩, ?_⟩
  rintro ⟨hself, hitems⟩ part hp
  cases hp with
  | self => exact hself
  | item mem hp => exact hitems _ mem _ hp

theorem forall_holds_ofFields {fields : List (Text × Value)} :
    (∀ part, Holds (ofFields fields) part → P part) ↔
      P (ofFields fields) ∧
        ∀ f ∈ fields, P (.text f.1) ∧ ∀ part, Holds f.2 part → P part := by
  refine ⟨fun h => ⟨h _ (.self _), fun f hf => ?_⟩, ?_⟩
  · have hmem : ((.text f.1, f.2) : Value × Value) ∈ fields.map fun f => (.text f.1, f.2) :=
      List.mem_map_of_mem hf
    exact ⟨h _ (.key hmem), fun part hp => h _ (.entry hmem hp)⟩
  · rintro ⟨hself, hfields⟩ part hp
    cases hp with
    | self => exact hself
    | key mem =>
      obtain ⟨f, hf, rfl⟩ := List.mem_map.1 mem
      exact (hfields f hf).1
    | entry mem hp =>
      obtain ⟨f, hf, rfl⟩ := List.mem_map.1 mem
      exact (hfields f hf).2 _ hp

theorem forall_holds_record {k : Text} {fields : List (Text × Value)} :
    (∀ part, Holds (.record k fields) part → P part) ↔
      P (.record k fields) ∧ ∀ f ∈ fields, ∀ part, Holds f.2 part → P part := by
  refine ⟨fun h => ⟨h _ (.self _), fun f hf part hp => h _ (.field hf hp)⟩, ?_⟩
  rintro ⟨hself, hfields⟩ part hp
  cases hp with
  | self => exact hself
  | field mem hp => exact hfields _ mem _ hp

end Parts

/-! ## Portable values -/

/-- A path is declared under this name, by the type of paths or by a text, in a record whose kind
declares these fields. -/
def isPlace (fields : List Field) (name : Text) : Bool :=
  name == "file_path" || fields.any fun f => f.annotation != .other && f.name == name

/-- The values of the module doc. -/
inductive Portable (c : Catalog) : Bool → Value → Prop
  | null {place : Bool} : Portable c place .null
  | bool {place : Bool} (b : Bool) : Portable c place (.bool b)
  | int {place : Bool} (n : Int) : Portable c place (.int n)
  | text (s : Text) : Portable c false (.text s)
  | path (p : Path) (named : p.Named) : Portable c true (.path p)
  | list {place : Bool} (items : List Value) (each : ∀ v ∈ items, Portable c false v) :
      Portable c place (.list items)
  | table {place : Bool} (fields : List (Text × Value)) (keys : (fields.map Prod.fst).Nodup)
      (untagged : kindKey ∉ fields.map Prod.fst)
      (each : ∀ f ∈ fields, Portable c (isPlace [] f.1) f.2) : Portable c place (ofFields fields)
  | record {place : Bool} (kind : Kind) (fields : List (Text × Value))
      (found : c.find? kind.name = some kind) (registered : kind.registered = true)
      (shape : kind.fields = some (declared c kind.name))
      (names : (fields.map Prod.fst).Sublist ((declared c kind.name).map Field.name))
      (keys : ((declared c kind.name).map Field.name).Nodup)
      (untagged : kindKey ∉ fields.map Prod.fst)
      (each : ∀ f ∈ fields, Portable c (isPlace (declared c kind.name) f.1) f.2) :
      Portable c place (.record kind.name fields)

theorem isPlace_of_restores {fields : List Field} {name : Text} (h : restores fields name = true) :
    isPlace fields name = true := by
  simp only [restores, isPlace, Bool.or_eq_true, List.any_eq_true, Bool.and_eq_true] at h ⊢
  refine h.imp_right ?_
  rintro ⟨f, hf, hpath, hname⟩
  have hdeclared : f.annotation = .path := by simpa [Field.isPath] using hpath
  exact ⟨f, hf, by simp [hdeclared], hname⟩

theorem registered?_of_find? {kind : Kind} (found : c.find? kind.name = some kind)
    (registered : kind.registered = true) : c.registered? kind.name = some kind := by
  obtain ⟨-, before, after, rfl, hbefore⟩ := List.find?_eq_some_iff_append.1 found
  refine List.find?_eq_some_iff_append.2 ⟨by simp [registered], before, after, rfl, fun k hk => ?_⟩
  have hname := hbefore k hk
  simp only [Bool.not_eq_true', Bool.and_eq_false_imp] at hname ⊢
  exact fun _ => hname

/-! ## Rereading -/

/-- What a value is built into before the object around it is complete. -/
def bare : Value → Value
  | .path p => .text p.toText
  | v => v

mutual
/-- The value with a text in the place of every path that is not restored. -/
def reread (c : Catalog) : Value → Value
  | .list items => .list (rereadItems c items)
  | .table entries => .table (rereadEntries c entries)
  | .record k fields => .record k (rereadFields c (declared c k) fields)
  | v => v
def rereadItems (c : Catalog) : List Value → List Value
  | [] => []
  | v :: vs => reread c v :: rereadItems c vs
def rereadEntries (c : Catalog) : List (Value × Value) → List (Value × Value)
  | [] => []
  | (k, v) :: rest => (k, reread c v) :: rereadEntries c rest
def rereadFields (c : Catalog) (fs : List Field) : List (Text × Value) → List (Text × Value)
  | [] => []
  | (k, v) :: rest =>
    (k, if restores fs k then reread c v else bare (reread c v)) :: rereadFields c fs rest
end

theorem rereadItems_eq (vs : List Value) : rereadItems c vs = vs.map (reread c) := by
  induction vs with
  | nil => rfl
  | cons v vs ih => rw [rereadItems, ih, List.map_cons]

theorem ofFields_inj {fs gs : List (Text × Value)} : ofFields fs = ofFields gs ↔ fs = gs := by
  rw [ofFields, ofFields, Value.table.injEq]
  exact List.map_inj_right fun f g h => by simpa [Prod.ext_iff] using h

theorem reread_ofFields (fields : List (Text × Value)) :
    reread c (ofFields fields) = ofFields (fields.map fun f => (f.1, reread c f.2)) := by
  have h : rereadEntries c (fields.map fun f => (.text f.1, f.2)) =
      fields.map fun f => (.text f.1, reread c f.2) := by
    induction fields with
    | nil => rfl
    | cons f fields ih => rw [List.map_cons, rereadEntries, ih, List.map_cons]
  rw [ofFields, reread, h, ofFields, List.map_map]
  rfl

theorem rereadFields_eq (fs : List Field) (fields : List (Text × Value)) :
    rereadFields c fs fields = fields.map fun f =>
      (f.1, if restores fs f.1 then reread c f.2 else bare (reread c f.2)) := by
  induction fields with
  | nil => rfl
  | cons f fields ih => rw [rereadFields, ih, List.map_cons]

/-- Fields as they are built before their object is complete. -/
def bareFields (c : Catalog) (fields : List (Text × Value)) : List (Text × Value) :=
  fields.map fun f => (f.1, bare (reread c f.2))

/-- A text turned into a path. -/
def asPath : Value → Value
  | .text s => .path (.ofText s)
  | v => v

theorem asPath_asPath (v : Value) : asPath (asPath v) = asPath v := by
  cases v <;> rfl

theorem Portable.bare_eq {v : Value} (h : Portable c false v) : bare (reread c v) = reread c v := by
  cases h <;> simp [reread, bare, ofFields]

theorem Portable.asPath_bare {v : Value} (h : Portable c true v) :
    asPath (bare (reread c v)) = reread c v := by
  cases h with
  | path p named => simp [reread, bare, asPath, named.ofText_toText]
  | _ => simp [reread, bare, asPath, ofFields]

theorem bare_reread_eq_iff {v : Value} :
    bare (reread c v) = v ↔ reread c v = v ∧ ∀ p, v ≠ .path p := by
  cases v <;> simp [reread, bare]

theorem map_eq_self_iff {α : Type} {f : α → α} {as : List α} :
    as.map f = as ↔ ∀ a ∈ as, f a = a := by
  conv_lhs => rhs; rw [← List.map_id as]
  exact List.map_inj_left

/-- Nothing changes if all paths are restored, and only then. -/
theorem Portable.reread_eq_iff {place : Bool} {v : Value} (h : Portable c place v) :
    reread c v = v ↔ ∀ part, Holds v part → IsRestored c part := by
  induction h with
  | list items each ih =>
    rw [forall_holds_list, ← forall₂_congr ih, reread, rereadItems_eq, Value.list.injEq,
      map_eq_self_iff]
    exact (and_iff_right trivial).symm
  | table fields keys untagged each ih =>
    rw [forall_holds_ofFields, reread_ofFields, ofFields_inj, map_eq_self_iff]
    refine Iff.trans (forall₂_congr fun f hf => ?_) (and_iff_right trivial).symm
    rw [Prod.ext_iff, ih f hf]
    exact and_congr (iff_of_true rfl trivial) Iff.rfl
  | record kind fields found registered shape names keys untagged each ih =>
    rw [forall_holds_record, ← forall₂_congr ih, reread, rereadFields_eq, Value.record.injEq,
      map_eq_self_iff, IsRestored, ← forall₂_and]
    refine (and_iff_right rfl).trans (forall₂_congr fun f hf => ?_)
    rw [Prod.ext_iff]
    cases restores (declared c kind.name) f.1 <;> simp [bare_reread_eq_iff, and_comm]
  | _ =>
    rw [forall_holds_leaf rfl]
    simp [reread, IsRestored]

/-! ## Writing -/

section Writing

variable {ofKind : Text → Except WriteError Json}

theorem writable_eq_ok_iff {t u : Text} : writable t = .ok u ↔ t.hasHalf = false ∧ t = u := by
  unfold writable
  cases t.hasHalf <;> simp

theorem shortEnough_eq_ok_iff {m n : Int} :
    shortEnough m = .ok n ↔ (Text.numeral m.natAbs).length ≤ Text.digitLimit ∧ m = n := by
  unfold shortEnough
  split <;> simp <;> omega

theorem isComplete_iff {kind : Text} {fields : List (Text × Value)} :
    isComplete c kind fields = true ↔ ∀ f ∈ declared c kind, f.name ∈ fields.map Prod.fst := by
  unfold isComplete declared
  cases (c.find? kind).bind Kind.fields <;> simp

theorem exists_encodeItems_iff {vs : List Value} :
    (∃ js, encodeItems c ofKind vs = .ok js) ↔ ∀ v ∈ vs, ∃ j, encode c ofKind v = .ok j := by
  induction vs with
  | nil => simp [encodeItems]
  | cons v vs ih =>
    simp only [encodeItems, bind_eq_ok_iff, List.forall_mem_cons, ← ih]
    refine ⟨?_, ?_⟩
    · rintro ⟨_, j, hj, js, hjs, -⟩
      exact ⟨⟨j, hj⟩, js, hjs⟩
    · rintro ⟨⟨j, hj⟩, js, hjs⟩
      exact ⟨_, j, hj, js, hjs, rfl⟩

theorem exists_encodeFields_iff {fields : List (Text × Value)} :
    (∃ js, encodeFields c ofKind fields = .ok js) ↔
      ∀ f ∈ fields, ∃ j, encode c ofKind f.2 = .ok j := by
  induction fields with
  | nil => simp [encodeFields]
  | cons f fields ih =>
    simp only [encodeFields, bind_eq_ok_iff, List.forall_mem_cons, ← ih]
    refine ⟨?_, ?_⟩
    · rintro ⟨_, j, hj, js, hjs, -⟩
      exact ⟨⟨j, hj⟩, js, hjs⟩
    · rintro ⟨⟨j, hj⟩, js, hjs⟩
      exact ⟨_, j, hj, js, hjs, rfl⟩

/-- A dictionary whose keys are texts is written like the fields of a record. -/
theorem encodeEntries_eq_ok_iff {fields : List (Text × Value)} {js : List (Text × Json)} :
    encodeEntries c ofKind (fields.map fun f => (.text f.1, f.2)) = .ok js ↔
      (∀ f ∈ fields, f.1.hasHalf = false) ∧ encodeFields c ofKind fields = .ok js := by
  induction fields generalizing js with
  | nil => simp [encodeEntries, encodeFields]
  | cons f fields ih =>
    simp only [List.map_cons, encodeEntries, encodeFields, bind_eq_ok_iff, keyText,
      writable_eq_ok_iff, ih, List.forall_mem_cons]
    refine ⟨?_, ?_⟩
    · rintro ⟨_, ⟨hf, rfl⟩, j, hj, rest, ⟨hrest, hjs⟩, h⟩
      exact ⟨⟨hf, hrest⟩, j, hj, rest, hjs, h⟩
    · rintro ⟨⟨hf, hrest⟩, j, hj, rest, hjs, h⟩
      exact ⟨_, ⟨hf, rfl⟩, j, hj, rest, ⟨hrest, hjs⟩, h⟩

/-- A record is written as its fields with the name of its kind, if they are complete. -/
theorem encode_record_eq_ok_iff {kind : Text} {fields : List (Text × Value)} {j : Json} :
    encode c ofKind (.record kind fields) = .ok j ↔
      (∀ f ∈ declared c kind, f.name ∈ fields.map Prod.fst) ∧
        ∃ js, encodeFields c ofKind fields = .ok js ∧ tagged kind js = j := by
  rw [encode, ← isComplete_iff]
  cases isComplete c kind fields <;> simp [map_eq_ok_iff]

end Writing

/-- A portable value can be written iff all its parts can. -/
theorem Portable.exists_encode_iff {place : Bool} {v : Value} (h : Portable c place v)
    (ofKind : Text → Except WriteError Json) :
    (∃ j, encode c ofKind v = .ok j) ↔ ∀ part, Holds v part → IsWritable c part := by
  induction h with
  | list items each ih =>
    rw [forall_holds_list, ← forall₂_congr ih, ← exists_encodeItems_iff]
    simp [encode, map_eq_ok_iff, IsWritable]
  | table fields keys untagged each ih =>
    rw [forall_holds_ofFields]
    simp only [forall₂_and, ← forall₂_congr ih, ← exists_encodeFields_iff, ofFields, encode,
      map_eq_ok_iff, encodeEntries_eq_ok_iff]
    refine ⟨?_, ?_⟩
    · rintro ⟨_, js, ⟨hkeys, hjs⟩, -⟩
      exact ⟨trivial, hkeys, js, hjs⟩
    · rintro ⟨-, hkeys, js, hjs⟩
      exact ⟨_, js, ⟨hkeys, hjs⟩, rfl⟩
  | record kind fields found registered shape names keys untagged each ih =>
    rw [forall_holds_record, ← forall₂_congr ih, ← exists_encodeFields_iff]
    simp [encode_record_eq_ok_iff, IsWritable]
  | _ =>
    rw [forall_holds_leaf rfl]
    simp [encode, IsWritable, map_eq_ok_iff, writable_eq_ok_iff, shortEnough_eq_ok_iff]

/-! ## Building -/

theorem withPath_eq (name : Text) (fields : List (Text × Value)) :
    withPath name fields = fields.map fun f => (f.1, if f.1 = name then asPath f.2 else f.2) := by
  unfold withPath
  refine List.map_congr_left fun f _ => ?_
  rcases f with ⟨key, v⟩
  cases v with
  | text s => by_cases h : key = name <;> simp [h, asPath]
  | _ => simp [asPath]

theorem withPaths_eq (declared : List Field) (fields : List (Text × Value)) :
    withPaths declared fields = fields.map fun f =>
      (f.1, if declared.any fun d => d.isPath && d.name == f.1 then asPath f.2 else f.2) := by
  unfold withPaths
  induction declared generalizing fields with
  | nil => simp
  | cons d declared ih =>
    by_cases hd : d.isPath = true
    · rw [List.filter_cons_of_pos hd, List.foldl_cons, ih, withPath_eq, List.map_map]
      refine List.map_congr_left fun f _ => ?_
      by_cases hn : d.name = f.1
      · simp [hd, hn, asPath_asPath]
      · simp [hn, Ne.symm hn]
    · rw [List.filter_cons_of_neg hd, ih]
      simp [hd]

theorem lookup_of_mem {fields : List (Text × Value)} (keys : (fields.map Prod.fst).Nodup)
    {f : Text × Value} (hf : f ∈ fields) : fields.lookup f.1 = some f.2 := by
  obtain ⟨before, after, rfl⟩ := List.append_of_mem hf
  rw [List.map_append, List.map_cons, List.nodup_middle, List.nodup_cons] at keys
  refine List.lookup_eq_some_iff.2 ⟨before, after, rfl, fun g hg => ?_⟩
  rw [bne_iff_ne]
  rintro h
  exact keys.1 (h ▸ List.mem_append_left _ (List.mem_map_of_mem hg))

/-- The values of all fields that a kind declares are found. -/
theorem fieldValues?_eq {given : List (Text × Value)} (keys : (given.map Prod.fst).Nodup)
    {fields : List (Text × Value)} {fs : List Field}
    (names : fields.map Prod.fst = fs.map Field.name) (hsub : fields ⊆ given) :
    fieldValues? given fs = some fields := by
  induction fs generalizing fields with
  | nil => rw [List.map_eq_nil_iff.1 names]; rfl
  | cons d fs ih =>
    obtain ⟨f, fields, rfl⟩ : ∃ f gs, fields = f :: gs := by
      cases fields with
      | nil => cases names
      | cons f gs => exact ⟨f, gs, rfl⟩
    rw [List.map_cons, List.map_cons, List.cons.injEq] at names
    have hlookup : given.lookup d.name = some f.2 := by
      rw [← names.1]
      exact lookup_of_mem keys (hsub (.head _))
    rw [fieldValues?, Field.value?, hlookup, ih names.2 (List.subset_of_cons_subset hsub),
      ← names.1]
    rfl

/-- A record is made of all the fields of its kind iff all of them can be given. -/
theorem make?_eq_some_iff (name : Text) {fs : List Field} {fields : List (Text × Value)}
    (names : fields.map Prod.fst = fs.map Field.name) (keys : (fields.map Prod.fst).Nodup)
    {v : Value} :
    make? name fs fields = some v ↔ (∀ f ∈ fs, f.init = true) ∧ .record name fields = v := by
  have hgiven : (fields.all fun g => fs.any fun f => f.init && f.name == g.1) = true ↔
      ∀ f ∈ fs, f.init = true := by
    have hall : (fields.all fun g => fs.any fun f => f.init && f.name == g.1) = true ↔
        ∀ name ∈ fs.map Field.name, ∃ f ∈ fs, f.init = true ∧ f.name = name := by
      rw [← names]
      simp
    rw [hall, List.forall_mem_map]
    refine ⟨fun h f hf => ?_, fun h f hf => ⟨f, hf, h f hf, rfl⟩⟩
    obtain ⟨g, hg, hinit, hname⟩ := h f hf
    exact List.inj_on_of_nodup_map (names ▸ keys) hg hf hname ▸ hinit
  rw [make?, ← hgiven, fieldValues?_eq keys names (List.Subset.refl _)]
  split
  · next h => exact ⟨fun hv => ⟨h, Option.some.inj hv⟩, fun hv => congrArg some hv.2⟩
  · next h => exact ⟨nofun, fun hv => absurd hv.1 h⟩

section Objects

variable {strict : Bool} {fields : List (Text × Value)}

theorem keys_bareFields : (bareFields c fields).map Prod.fst = fields.map Prod.fst :=
  List.map_map

theorem keys_rereadFields (fs : List Field) :
    (rereadFields c fs fields).map Prod.fst = fields.map Prod.fst := by
  rw [rereadFields_eq]
  exact List.map_map

theorem keys_withPath (name : Text) :
    (withPath name fields).map Prod.fst = fields.map Prod.fst := by
  rw [withPath_eq]
  exact List.map_map

theorem lookup_of_not_mem {key : Text} (h : key ∉ fields.map Prod.fst) :
    fields.lookup key = none := by
  rw [List.lookup_eq_none_iff]
  intro f hf
  rw [bne_iff_ne]
  rintro rfl
  exact h (List.mem_map_of_mem hf)

/-- The paths among the fields of a complete object are restored where they are declared by the
type of paths. -/
theorem restored_fields {fs : List Field}
    (each : ∀ f ∈ fields, Portable c (isPlace fs f.1) f.2) :
    withPaths fs (withPath "file_path" (bareFields c fields)) = rereadFields c fs fields := by
  rw [withPath_eq, withPaths_eq, bareFields, rereadFields_eq, List.map_map, List.map_map]
  refine List.map_congr_left fun f hf => Prod.ext rfl ?_
  have hrestored : restores fs f.1 = true → asPath (bare (reread c f.2)) = reread c f.2 := by
    intro h
    have hf := each f hf
    rw [isPlace_of_restores h] at hf
    exact hf.asPath_bare
  have hboth : ∀ isDeclared : Bool, ∀ v,
      (if isDeclared then asPath (if f.1 = "file_path" then asPath v else v)
        else if f.1 = "file_path" then asPath v else v) =
      if f.1 == "file_path" || isDeclared then asPath v else v := by
    intro isDeclared v
    by_cases hfile : f.1 = "file_path" <;> cases isDeclared <;> simp [hfile, asPath_asPath]
  refine (hboth _ _).trans ?_
  show (if restores fs f.1 then _ else _) = if restores fs f.1 then _ else _
  split
  · next h => exact hrestored h
  · rfl

theorem ofObject_table (keys : (fields.map Prod.fst).Nodup)
    (untagged : kindKey ∉ fields.map Prod.fst)
    (each : ∀ f ∈ fields, Portable c (isPlace [] f.1) f.2) :
    ofObject c strict (bareFields c fields) = .ok (reread c (ofFields fields)) := by
  have hrestored : withPath "file_path" (bareFields c fields) = rereadFields c [] fields :=
    restored_fields each
  have hsame : rereadFields c [] fields = fields.map fun f => (f.1, reread c f.2) := by
    rw [rereadFields_eq]
    refine List.map_congr_left fun f hf => Prod.ext rfl ?_
    have hf := each f hf
    show (if restores [] f.1 then _ else _) = _
    split
    · rfl
    · next hplace =>
      rw [show isPlace [] f.1 = false by simpa [restores, isPlace] using hplace] at hf
      exact hf.bare_eq
  rw [ofObject, Json.dedup_of_nodup (by rwa [keys_bareFields]), hrestored,
    lookup_of_not_mem (by rwa [keys_rereadFields]), hsame, reread_ofFields]

theorem ofObject_record {kind : Kind} (found : c.find? kind.name = some kind)
    (registered : kind.registered = true) (shape : kind.fields = some (declared c kind.name))
    (names : fields.map Prod.fst = (declared c kind.name).map Field.name)
    (keys : (fields.map Prod.fst).Nodup) (untagged : kindKey ∉ fields.map Prod.fst)
    (each : ∀ f ∈ fields, Portable c (isPlace (declared c kind.name) f.1) f.2) {v : Value} :
    ofObject c strict (bareFields c fields ++ [(kindKey, Value.text kind.name)]) = .ok v ↔
      (∀ f ∈ declared c kind.name, f.init = true) ∧ reread c (.record kind.name fields) = v := by
  have hnodup :
      ((bareFields c fields ++ [(kindKey, Value.text kind.name)]).map Prod.fst).Nodup := by
    rw [List.map_append, keys_bareFields]
    exact List.nodup_append_comm.1 (List.nodup_cons.2 ⟨untagged, keys⟩)
  have hsplit : withPath "file_path" (bareFields c fields ++ [(kindKey, Value.text kind.name)]) =
      withPath "file_path" (bareFields c fields) ++ [(kindKey, Value.text kind.name)] := by
    have hkind : kindKey ≠ "file_path" := by decide +kernel
    rw [withPath_eq, List.map_append, ← withPath_eq, List.map_singleton, if_neg hkind]
  have hrest : kindKey ∉ (withPath "file_path" (bareFields c fields)).map Prod.fst := by
    rwa [keys_withPath, keys_bareFields]
  have hfilter : (withPath "file_path" (bareFields c fields) ++
      [(kindKey, Value.text kind.name)]).filter (fun f => f.1 ≠ kindKey) =
        withPath "file_path" (bareFields c fields) := by
    rw [List.filter_append, List.filter_eq_self.2, List.filter_cons_of_neg (by simp),
      List.filter_nil, List.append_nil]
    intro f hf
    exact decide_eq_true fun h => hrest (h ▸ List.mem_map_of_mem hf)
  have hmake := make?_eq_some_iff kind.name (v := v)
    ((keys_rereadFields (c := c) (declared c kind.name)).trans names)
    ((keys_rereadFields (c := c) _).symm ▸ keys)
  rw [ofObject, Json.dedup_of_nodup hnodup, hsplit, reread, ← hmake]
  simp only [List.lookup_append, lookup_of_not_mem hrest, hfilter]
  simp [ofNamed, isKey, registered?_of_find? found registered, shape, restored_fields each]
  cases make? kind.name (declared c kind.name) (rereadFields c (declared c kind.name) fields) <;>
    simp

end Objects

/-- A document is built into what a value is reread as, if all records can be made. -/
def BuildsBack (c : Catalog) (strict : Bool) (v : Value) (j : Json) : Prop :=
  Floatless j ∧ ∀ w, foldWithin (builder c strict) loadLimits j = .ok w ↔
    (∀ part, Holds v part → IsMakeable c part) ∧ bare (reread c v) = w

section Building

variable {strict : Bool} {ofKind : Text → Except WriteError Json}

theorem buildsBack_items {vs : List Value} {js : List Json} (h : encodeItems c ofKind vs = .ok js)
    (each : ∀ v ∈ vs, ∀ j, encode c ofKind v = .ok j → BuildsBack c strict v j) :
    (∀ j ∈ js, Floatless j) ∧ ∀ ws,
      foldItemsWithin (builder c strict) loadLimits js = .ok ws ↔
        (∀ v ∈ vs, ∀ part, Holds v part → IsMakeable c part) ∧
          vs.map (fun v => bare (reread c v)) = ws := by
  induction vs generalizing js with
  | nil =>
    obtain rfl := Except.ok.inj h
    simp [foldItemsWithin]
  | cons v vs ih =>
    simp only [encodeItems, bind_eq_ok_iff] at h
    obtain ⟨j, hj, rest, hrest, hjs⟩ := h
    obtain rfl := Except.ok.inj hjs
    obtain ⟨hfloat, hfold⟩ := each v (.head _) j hj
    obtain ⟨hfloats, hfolds⟩ := ih hrest fun u hu => each u (.tail _ hu)
    refine ⟨List.forall_mem_cons.2 ⟨hfloat, hfloats⟩, fun ws => ?_⟩
    simp only [foldItemsWithin, bind_eq_ok_iff, hfold, hfolds, List.forall_mem_cons, List.map_cons]
    refine ⟨?_, ?_⟩
    · rintro ⟨_, ⟨hv, rfl⟩, _, ⟨hvs, rfl⟩, hws⟩
      exact ⟨⟨hv, hvs⟩, Except.ok.inj hws⟩
    · rintro ⟨⟨hv, hvs⟩, rfl⟩
      exact ⟨_, ⟨hv, rfl⟩, _, ⟨hvs, rfl⟩, rfl⟩

theorem buildsBack_fields {fields : List (Text × Value)} {js : List (Text × Json)}
    (h : encodeFields c ofKind fields = .ok js)
    (each : ∀ f ∈ fields, ∀ j, encode c ofKind f.2 = .ok j → BuildsBack c strict f.2 j) :
    js.map Prod.fst = fields.map Prod.fst ∧ (∀ f ∈ js, Floatless f.2) ∧ ∀ gs,
      foldFieldsWithin (builder c strict) loadLimits js = .ok gs ↔
        (∀ f ∈ fields, ∀ part, Holds f.2 part → IsMakeable c part) ∧ bareFields c fields = gs := by
  induction fields generalizing js with
  | nil =>
    obtain rfl := Except.ok.inj h
    simp [foldFieldsWithin, bareFields, eq_comm]
  | cons f fields ih =>
    simp only [encodeFields, bind_eq_ok_iff] at h
    obtain ⟨j, hj, rest, hrest, hjs⟩ := h
    obtain rfl := Except.ok.inj hjs
    obtain ⟨hfloat, hfold⟩ := each f (.head _) j hj
    obtain ⟨hkeys, hfloats, hfolds⟩ := ih hrest fun u hu => each u (.tail _ hu)
    refine ⟨by simp [hkeys], List.forall_mem_cons.2 ⟨hfloat, hfloats⟩, fun gs => ?_⟩
    simp only [foldFieldsWithin, bind_eq_ok_iff, hfold, hfolds, List.forall_mem_cons]
    refine ⟨?_, ?_⟩
    · rintro ⟨_, ⟨hv, rfl⟩, _, ⟨hvs, rfl⟩, hws⟩
      exact ⟨⟨hv, hvs⟩, Except.ok.inj hws⟩
    · rintro ⟨⟨hv, hvs⟩, rfl⟩
      exact ⟨_, ⟨hv, rfl⟩, _, ⟨hvs, rfl⟩, rfl⟩

/-- The field for the kind is written last. -/
theorem foldFieldsWithin_concat (js : List (Text × Json)) (key s : Text) :
    foldFieldsWithin (builder c strict) loadLimits (js ++ [(key, .str s)]) =
      (foldFieldsWithin (builder c strict) loadLimits js).map (· ++ [(key, .text s)]) := by
  induction js with
  | nil => rfl
  | cons f js ih =>
    rw [List.cons_append, foldFieldsWithin, foldFieldsWithin, ih]
    cases foldWithin (builder c strict) loadLimits f.2 with
    | error e => rfl
    | ok a => cases foldFieldsWithin (builder c strict) loadLimits js <;> rfl

/-- An object is built once its fields are: there is no limit on how deep it stands. -/
theorem foldWithin_obj_iff {js : List (Text × Json)} {given : List (Text × Value)} {w : Value}
    {fits made : Prop} {v : Value}
    (hfold : ∀ gs, foldFieldsWithin (builder c strict) loadLimits js = .ok gs ↔ fits ∧ given = gs)
    (hobject : ofObject c strict given = .ok w ↔ made ∧ v = w) :
    foldWithin (builder c strict) loadLimits (.obj js) = .ok w ↔ (made ∧ fits) ∧ v = w := by
  simp only [foldWithin, bind_eq_ok_iff]
  refine ⟨?_, ?_⟩
  · rintro ⟨_, ⟨⟩, gs, hgs, hw⟩
    obtain ⟨hfits, rfl⟩ := (hfold gs).1 hgs
    cases hbuild : (builder c strict).obj given with
    | error e => rw [hbuild] at hw; cases hw
    | ok a =>
      rw [hbuild] at hw
      obtain ⟨hmade, hv⟩ := hobject.1 (hbuild.trans (congrArg _ (Except.ok.inj hw)))
      exact ⟨⟨hmade, hfits⟩, hv⟩
  · rintro ⟨⟨hmade, hfits⟩, hv⟩
    have hbuild : (builder c strict).obj given = .ok w := hobject.2 ⟨hmade, hv⟩
    exact ⟨_, rfl, _, (hfold _).2 ⟨hfits, rfl⟩, by rw [hbuild]⟩

end Building

theorem Portable.buildsBack {ofKind : Text → Except WriteError Json} {place : Bool}
    {v : Value} (h : Portable c place v) (strict : Bool) {j : Json}
    (hj : encode c ofKind v = .ok j) : BuildsBack c strict v j := by
  induction h generalizing j with
  | null =>
    obtain rfl := Except.ok.inj hj
    refine ⟨.null, fun w => ?_⟩
    rw [forall_holds_leaf rfl]
    simp [foldWithin, builder, IsMakeable, reread, bare]
  | bool b =>
    obtain rfl := Except.ok.inj hj
    refine ⟨.bool b, fun w => ?_⟩
    rw [forall_holds_leaf rfl]
    simp [foldWithin, builder, IsMakeable, reread, bare]
  | int n =>
    simp only [encode, map_eq_ok_iff, shortEnough_eq_ok_iff] at hj
    obtain ⟨_, ⟨hshort, rfl⟩, rfl⟩ := hj
    refine ⟨.int n, fun w => ?_⟩
    have hadmits : loadLimits.admits (Text.numeral n.natAbs).length = true :=
      decide_eq_true hshort
    rw [forall_holds_leaf rfl, foldWithin, hadmits]
    simp [builder, IsMakeable, reread, bare]
  | text s =>
    simp only [encode, map_eq_ok_iff, writable_eq_ok_iff] at hj
    obtain ⟨_, ⟨-, rfl⟩, rfl⟩ := hj
    refine ⟨.str s, fun w => ?_⟩
    rw [forall_holds_leaf rfl]
    simp [foldWithin, builder, IsMakeable, reread, bare]
  | path p =>
    simp only [encode, map_eq_ok_iff, writable_eq_ok_iff] at hj
    obtain ⟨_, ⟨-, rfl⟩, rfl⟩ := hj
    refine ⟨.str p.toText, fun w => ?_⟩
    rw [forall_holds_leaf rfl]
    simp [foldWithin, builder, IsMakeable, reread, bare]
  | list items each ih =>
    simp only [encode, map_eq_ok_iff] at hj
    obtain ⟨js, hjs, rfl⟩ := hj
    obtain ⟨hfloat, hfold⟩ := buildsBack_items hjs fun v hv j hj => ih v hv hj
    have hbare : items.map (fun v => bare (reread c v)) = items.map (reread c) :=
      List.map_congr_left fun v hv => (each v hv).bare_eq
    rw [hbare] at hfold
    refine ⟨.arr js hfloat, fun w => ?_⟩
    simp only [foldWithin, bind_eq_ok_iff, forall_holds_list, reread, rereadItems_eq, bare]
    refine ⟨?_, ?_⟩
    · rintro ⟨_, ⟨⟩, ws, hws, hw⟩
      obtain ⟨hitems, rfl⟩ := (hfold ws).1 hws
      exact ⟨⟨trivial, hitems⟩, Except.ok.inj hw⟩
    · rintro ⟨⟨-, hitems⟩, rfl⟩
      exact ⟨_, rfl, _, (hfold _).2 ⟨hitems, rfl⟩, rfl⟩
  | table fields keys untagged each ih =>
    simp only [ofFields, encode, map_eq_ok_iff, encodeEntries_eq_ok_iff] at hj
    obtain ⟨js, ⟨-, hjs⟩, rfl⟩ := hj
    obtain ⟨-, hfloat, hfold⟩ := buildsBack_fields hjs fun f hf j hj => ih f hf hj
    refine ⟨.obj js hfloat, fun w => ?_⟩
    have hobject : ofObject c strict (bareFields c fields) = .ok w ↔
        True ∧ reread c (ofFields fields) = w := by
      rw [ofObject_table keys untagged each]
      simp
    have hbare : bare (reread c (ofFields fields)) = reread c (ofFields fields) := by
      rw [reread_ofFields]
      rfl
    rw [foldWithin_obj_iff hfold hobject, forall_holds_ofFields, hbare]
    refine and_congr_left fun _ => and_congr Iff.rfl (forall₂_congr fun f _ => ?_)
    exact (and_iff_right trivial).symm
  | record kind fields found registered shape names keys untagged each ih =>
    obtain ⟨hcomplete, js, hjs, rfl⟩ := encode_record_eq_ok_iff.1 hj
    obtain ⟨hkeys, hfloat, hfold⟩ := buildsBack_fields hjs fun f hf j hj => ih f hf hj
    have hsub : (declared c kind.name).map Field.name ⊆ fields.map Prod.fst :=
      List.forall_mem_map.2 hcomplete
    have hall : fields.map Prod.fst = (declared c kind.name).map Field.name :=
      names.eq_of_length_le (List.subperm_of_subset keys hsub).length_le
    rw [tagged, Json.put_of_not_mem _ (hkeys ▸ untagged)]
    have htagged : ∀ gs, foldFieldsWithin (builder c strict) loadLimits
        (js ++ [(kindKey, .str kind.name)]) = .ok gs ↔
          (∀ f ∈ fields, ∀ part, Holds f.2 part → IsMakeable c part) ∧
            bareFields c fields ++ [(kindKey, .text kind.name)] = gs := by
      intro gs
      rw [foldFieldsWithin_concat, map_eq_ok_iff]
      simp [hfold, and_assoc]
    have hname : ∀ f ∈ [(kindKey, Json.str kind.name)], Floatless f.2 :=
      List.forall_mem_singleton.2 (.str kind.name)
    refine ⟨.obj _ (List.forall_mem_append.2 ⟨hfloat, hname⟩), fun w => ?_⟩
    rw [foldWithin_obj_iff htagged
      (ofObject_record found registered shape hall (hall ▸ keys) untagged each),
      forall_holds_record, reread]
    rfl

/-! ## Files -/

theorem read_eq_ok_iff {limits : Json.Limits} {strict : Bool} {s : String} {v : Value} :
    read limits c strict s = .ok v ↔ Json.read limits (builder c strict) s.toList = .ok v := by
  unfold read
  split <;> simp_all

/-- What is loaded from the file of a portable value is what the value is reread as. -/
theorem Portable.load_eq_ok_iff {v : Value} (hv : Portable c false v) {s : String}
    (hs : write c v = .ok s) (strict : Bool) (w : Value) :
    load c strict s.toUTF8 = .ok w ↔
      (∀ part, Holds v part → IsMakeable c part) ∧ reread c v = w := by
  obtain ⟨j, hj, rfl⟩ := map_eq_ok_iff.1 hs
  obtain ⟨hfloat, hfold⟩ := hv.buildsBack strict hj
  rw [hv.bare_eq] at hfold
  rw [load, Text.fromUTF8?_toUTF8]
  show read _ _ _ _ = _ ↔ _
  rw [read_eq_ok_iff, Json.read_render hfloat, hfold]

/-- A `Portable` value, nested to any depth, is given back by `load` from what `write` has written
iff every part of it `IsWritable`, `IsMakeable` and `IsRestored`: no text holds half of a pair, no
integer has more than `Text.digitLimit` digits, every record has all fields of its kind, each of
which can be given to a new record, and no path stands in a field that only a text declares to hold
one. Nothing but `reread c v` is ever loaded from that file. -/
theorem load_write_iff {v : Value} (hv : Portable c false v) (strict : Bool) :
    ((∃ s, write c v = .ok s ∧ load c strict s.toUTF8 = .ok v) ↔
      ∀ part, Holds v part → IsWritable c part ∧ IsMakeable c part ∧ IsRestored c part) ∧
    ∀ s w, write c v = .ok s → load c strict s.toUTF8 = .ok w → w = reread c v := by
  have hwrite : (∃ s, write c v = .ok s) ↔ ∀ part, Holds v part → IsWritable c part := by
    rw [← hv.exists_encode_iff (kindDocument c)]
    simp [write, map_eq_ok_iff]
  refine ⟨⟨?_, ?_⟩, ?_⟩
  · rintro ⟨s, hs, hload⟩ part hpart
    obtain ⟨hmakeable, hsame⟩ := (hv.load_eq_ok_iff hs strict v).1 hload
    exact ⟨hwrite.1 ⟨s, hs⟩ part hpart, hmakeable part hpart, hv.reread_eq_iff.1 hsame part hpart⟩
  · intro h
    obtain ⟨s, hs⟩ := hwrite.2 fun part hpart => (h part hpart).1
    have hmakeable : ∀ part, Holds v part → IsMakeable c part := fun part hp => (h part hp).2.1
    have hsame : reread c v = v := hv.reread_eq_iff.2 fun part hp => (h part hp).2.2
    exact ⟨s, hs, (hv.load_eq_ok_iff hs strict v).2 ⟨hmakeable, hsame⟩⟩
  · intro s w hs hload
    exact ((hv.load_eq_ok_iff hs strict w).1 hload).2.symm

/-- A kind with a text and a path, one that declares a path by a text, and one with a field that no
new record can be given. -/
def kinds : Catalog :=
  [⟨"Page", some [⟨"title", .other, .required, true⟩, ⟨"home", .path, .required, true⟩], true⟩,
    ⟨"Link", some [⟨"target", .pathText, .required, true⟩], true⟩,
    ⟨"Visit", some [⟨"count", .other, .shared (.int 0), false⟩], true⟩]

/-- A dictionary with a path, a record and another value. -/
def page (title : Text) (child : Value) : Value :=
  ofFields [("file_path", .path (.ofText "a.md")),
    ("page", .record "Page" [("title", .text title), ("home", .path (.ofText "/docs"))]),
    ("child", child)]

def link : Value := .record "Link" [("target", .path (.ofText "b.md"))]

def visit : Value := .record "Visit" [("count", .int 0)]

theorem portable_link : Portable kinds false link := by
  refine .record ⟨"Link", _, true⟩ _ rfl rfl rfl (.refl _) (by decide +kernel)
    (by decide +kernel) ?_
  exact List.forall_mem_singleton.2 (.path _ ⟨_, rfl⟩)

theorem portable_visit : Portable kinds false visit := by
  refine .record ⟨"Visit", _, true⟩ _ rfl rfl rfl (.refl _) (by decide +kernel)
    (by decide +kernel) ?_
  exact List.forall_mem_singleton.2 (.int 0)

theorem portable_page (title : Text) {child : Value} (h : Portable kinds false child) :
    Portable kinds false (page title child) := by
  have hkeys : (["file_path", "page", "child"] : List Text).Nodup ∧
      kindKey ∉ (["file_path", "page", "child"] : List Text) := by decide +kernel
  have hrecord : Portable kinds false
      (.record "Page" [("title", .text title), ("home", .path (.ofText "/docs"))]) := by
    refine .record ⟨"Page", _, true⟩ _ rfl rfl rfl (.refl _) (by decide +kernel)
      (show kindKey ∉ (["title", "home"] : List Text) by decide +kernel) ?_
    rw [List.forall_mem_cons, List.forall_mem_singleton]
    exact ⟨.text title, .path _ ⟨_, rfl⟩⟩
  refine .table _ hkeys.1 hkeys.2 ?_
  simp only [List.forall_mem_cons, List.not_mem_nil, false_imp_iff, implies_true, and_true]
  exact ⟨.path _ ⟨_, rfl⟩, hrecord, h⟩

theorem page_kept_iff (title : Text) (child : Value) :
    (∀ part, Holds (page title child) part →
        IsWritable kinds part ∧ IsMakeable kinds part ∧ IsRestored kinds part) ↔
      title.hasHalf = false ∧ ∀ part, Holds child part →
        IsWritable kinds part ∧ IsMakeable kinds part ∧ IsRestored kinds part := by
  have hpaths : (Path.ofText "a.md").toText.hasHalf = false ∧
      (Path.ofText "/docs").toText.hasHalf = false := by decide +kernel
  have hdeclared : declared kinds "Page" =
      [⟨"title", .other, .required, true⟩, ⟨"home", .path, .required, true⟩] := rfl
  simp only [page, forall_holds_ofFields, forall_holds_record, List.forall_mem_cons,
    forall_holds_leaf (v := .path _) rfl, forall_holds_leaf (v := .text _) rfl]
  simp [ofFields, IsWritable, IsMakeable, IsRestored, restores, hdeclared, Field.isPath, hpaths,
    Text.hasHalf_ofString]

theorem load_write_iff_page :
    (∃ s, write kinds (page "é" .null) = .ok s ∧
      load kinds true s.toUTF8 = .ok (page "é" .null)) ∧
    (¬∃ s, write kinds (page (.ofRunes [.half 0]) .null) = .ok s ∧
      load kinds true s.toUTF8 = .ok (page (.ofRunes [.half 0]) .null)) ∧
    (¬∃ s, write kinds (page "é" link) = .ok s ∧ load kinds true s.toUTF8 = .ok (page "é" link)) ∧
    ¬∃ s, write kinds (page "é" visit) = .ok s ∧
      load kinds true s.toUTF8 = .ok (page "é" visit) := by
  rw [(load_write_iff (portable_page _ .null) true).1,
    (load_write_iff (portable_page _ .null) true).1,
    (load_write_iff (portable_page _ portable_link) true).1,
    (load_write_iff (portable_page _ portable_visit) true).1, page_kept_iff, page_kept_iff,
    page_kept_iff, page_kept_iff]
  refine ⟨⟨by decide +kernel, ?_⟩, fun h => absurd h.1 (by decide +kernel), fun h => ?_,
    fun h => ?_⟩
  · rw [forall_holds_leaf rfl]
    exact ⟨trivial, trivial, trivial⟩
  · have hlink := (h.2 link (.self _)).2.2 _ (.head _) _ rfl
    exact absurd hlink (by decide +kernel)
  · have hvisit := (h.2 visit (.self _)).2.1 _ (.head _)
    exact Bool.false_ne_true hvisit

end CallAtlas.Value.Document
