import CallAtlas.Language.Catalog
import CallAtlas.Proofs.Outcome
import CallAtlas.Proofs.Source.Tree

/-! # The calls that languages read

`Language.ListsCalls l`: a definition that `l` reads lists the calls that `l` reads off the nodes of
its body, and a call that `l` reads does not tell where it stands. All known languages are such
(`listsCalls_of_mem_all`). -/

namespace CallAtlas.Language

/-- A call is read off a node. -/
def ReadsCall (l : Language) (s : Source) (t : Tree) (call : Site) : Prop :=
  ∃ r, l.call s t = .ok (some (call.symbol, r)) ∧ r.location = call.location

/-- A definition is read off a node. -/
def ReadsDefinition (l : Language) (s : Source) (c : Cursor) (site : Site) : Prop :=
  ∃ d, l.definition s c = .ok (some (site.symbol, d)) ∧ d.location = site.location

/-- A call stands in the body of a node. -/
def CallInBody (l : Language) (s : Source) (t : Tree) (call : Site) : Prop :=
  ∃ body, t.child? "body" = some body ∧ ∃ n ∈ l.callNodes body, l.ReadsCall s n call

/-- What is relied on when a tree is indexed (module doc). -/
structure ListsCalls (l : Language) : Prop where
  calls : ∀ s c f d, l.definition s c = .ok (some (f, d)) →
    ∀ call, call ∈ d.calls ↔ l.CallInBody s c.tree call
  callers : ∀ s t g r, l.call s t = .ok (some (g, r)) → r.callers = []

theorem mem_sitesOf {call : CallReader} {s : Source} {ts : List Tree} {sites : List Site}
    (h : sitesOf call s ts = .ok sites) (site : Site) : site ∈ sites ↔
      ∃ t ∈ ts, ∃ r, call s t = .ok (some (site.symbol, r)) ∧ r.location = site.location := by
  induction ts generalizing sites with
  | nil => simp only [sitesOf, Except.ok.injEq] at h; simp [← h]
  | cons t ts ih =>
    rw [sitesOf] at h
    cases hc : call s t with
    | error e => simp [hc] at h
    | ok found =>
      cases hr : sitesOf call s ts with
      | error e => simp [hc, hr] at h
      | ok rest =>
        simp only [hc, hr, Except.ok.injEq] at h
        subst h
        simp only [List.mem_append, ih hr, List.mem_cons, exists_eq_or_imp, hc, Except.ok.injEq]
        refine or_congr_left ?_
        cases found with
        | none => simp
        | some found =>
          obtain ⟨g, r⟩ := found
          obtain ⟨g', l⟩ := site
          simp only [Option.map_some, Option.toList_some, List.mem_singleton, Site.mk.injEq,
            Option.some.injEq, Prod.mk.injEq]
          constructor
          · rintro ⟨rfl, rfl⟩
            exact ⟨r, ⟨rfl, rfl⟩, rfl⟩
          · rintro ⟨r', ⟨rfl, rfl⟩, rfl⟩
            exact ⟨rfl, rfl⟩

/-- The calls in the body of a node, for a language with one kind of calls. -/
theorem mem_callsIn {l : Language} {kind : String} (hk : l.callKinds = [kind]) {s : Source}
    {t : Tree} {sites : List Site} (h : callsIn l.call kind s t = .ok sites) (site : Site) :
    site ∈ sites ↔ l.CallInBody s t site := by
  unfold callsIn at h
  split at h
  · next hb =>
    rw [Except.ok.injEq] at h
    simp [← h, CallInBody, hb]
  · next body hb =>
    rw [mem_sitesOf h]
    simp [CallInBody, hb, callNodes, hk, ReadsCall]

/-! ## The known languages -/

/-- A name that is read makes a call that does not tell where it stands. -/
theorem callers_of_map {s : Source} {name : Tree} {symbol : Text → Symbol} {l : Location}
    {g : Symbol} {r : Reference}
    (h : (s.text name).map (fun n => some (symbol n, Reference.bare l)) = .ok (some (g, r))) :
    r.callers = [] := by
  obtain ⟨n, -, h⟩ := ok_of_map h
  rw [Option.some.injEq, Prod.mk.injEq] at h
  rw [← h.2]
  rfl

/-- A definition lists the calls in its body and comes without a note. -/
theorem of_python {s : Source} {c : Cursor} {f : Symbol} {d : Definition}
    (h : Python.definition s c = .ok (some (f, d))) :
    callsIn Python.call "call" s c.tree = .ok d.calls ∧ d.note = none := by
  unfold Python.definition at h
  split at h
  · cases h
  · obtain ⟨name, -, h⟩ := ok_of_bind h
    obtain ⟨doc, -, h⟩ := ok_of_bind h
    obtain ⟨calls, hcalls, h⟩ := ok_of_bind h
    obtain ⟨symbol, -, h⟩ := ok_of_bind h
    cases h
    exact ⟨hcalls, rfl⟩

/-- What a definition with a name is in C holds for the calls of any reader. -/
theorem of_named {call : CallReader} {s : Source} {c : Cursor} {name : Text} {f : Symbol}
    {d : Definition} (h : C.named call s c name = .ok (f, d)) :
    callsIn call "call_expression" s c.tree = .ok d.calls ∧ d.note = none := by
  unfold C.named at h
  obtain ⟨doc, -, h⟩ := ok_of_bind h
  obtain ⟨calls, hcalls, h⟩ := ok_of_bind h
  cases h
  exact ⟨hcalls, rfl⟩

theorem of_c {s : Source} {k : Cursor} {f : Symbol} {d : Definition}
    (h : C.definition s k = .ok (some (f, d))) :
    callsIn C.call "call_expression" s k.tree = .ok d.calls ∧ d.note = none := by
  unfold C.definition at h
  split at h
  · cases h
  · split at h
    · cases h
    · split at h
      · cases h
      · obtain ⟨x, hx, h⟩ := ok_of_map h
        cases h
        exact of_named hx

theorem of_cpp {s : Source} {k : Cursor} {f : Symbol} {d : Definition}
    (h : Cpp.definition s k = .ok (some (f, d))) :
    callsIn Cpp.call "call_expression" s k.tree = .ok d.calls ∧ d.note = none := by
  unfold Cpp.definition at h
  split at h
  · next hk =>
    rw [Cpp.functionDefinition, if_pos hk] at h
    split at h
    · cases h
    · split at h
      · cases h
      · obtain ⟨x, hx, h⟩ := ok_of_map h
        cases h
        exact of_named hx
  · cases h

theorem listsCalls_python : python.ListsCalls := by
  constructor
  · exact fun s c f d h => mem_callsIn (l := python) rfl (of_python h).1
  · intro s t g r h
    change Python.call s t = _ at h
    unfold Python.call at h
    split at h
    · cases h
    · exact callers_of_map h

theorem listsCalls_c : c.ListsCalls := by
  constructor
  · exact fun s k f d h => mem_callsIn (l := c) rfl (of_c h).1
  · intro s t g r h
    change C.call s t = _ at h
    unfold C.call at h
    split at h
    · cases h
    · exact callers_of_map h

theorem listsCalls_cpp : cpp.ListsCalls := by
  constructor
  · exact fun s k f d h => mem_callsIn (l := cpp) rfl (of_cpp h).1
  · intro s t g r h
    change Cpp.call s t = _ at h
    unfold Cpp.call at h
    split at h
    · cases h
    · exact callers_of_map h

theorem listsCalls_of_mem_all {l : Language} (h : l ∈ all) : l.ListsCalls := by
  simp only [all, List.mem_cons, List.not_mem_nil, or_false] at h
  rcases h with rfl | rfl | rfl
  · exact listsCalls_python
  · exact listsCalls_c
  · exact listsCalls_cpp

/-- No known language reads notes. -/
theorem note_of_mem_all {l : Language} (h : l ∈ all) {s : Source} {k : Cursor} {f : Symbol}
    {d : Definition} (hd : l.definition s k = .ok (some (f, d))) : d.note = none := by
  simp only [all, List.mem_cons, List.not_mem_nil, or_false] at h
  rcases h with rfl | rfl | rfl
  · exact (of_python hd).2
  · exact (of_c hd).2
  · exact (of_cpp hd).2

end CallAtlas.Language
