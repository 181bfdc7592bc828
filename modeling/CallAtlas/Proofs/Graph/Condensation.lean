import CallAtlas.Proofs.Graph.Components

/-! # The graph of components

`Holds components a i`: position `i` stands in component `a`. A pair of components is joined iff a
call leads from the one to the other (`crossings_ok`), and since a component is found after all that
it reaches (`IsComponents.part_le`), the pairs go from larger numbers to smaller ones.

* `exists_condensed`: the components of a call graph together with the edges between them.
* `condense_exact`: the graph of components of a call graph whose edges join its nodes. -/

namespace CallAtlas.Graph

/-- The component of a number holds a position. -/
def Holds (components : List (List Int)) (a i : Int) : Prop :=
  ∃ (m : Nat) (c : List Int), a = m ∧ components[m]? = some c ∧ i ∈ c

theorem holds_iff_mem {components : List (List Int)} {m : Nat} {c : List Int}
    (h : components[m]? = some c) {i : Int} : Holds components m i ↔ i ∈ c := by
  refine ⟨?_, fun hi => ⟨m, c, rfl, h, hi⟩⟩
  rintro ⟨m', c', hmm, hm', hi⟩
  obtain rfl : m = m' := by omega
  rw [h, Option.some.injEq] at hm'
  exact hm' ▸ hi

/-! ## Pairs -/

theorem nodup_eraseDups {α : Type} [BEq α] [LawfulBEq α] (l : List α) : l.eraseDups.Nodup := by
  induction hn : l.length using Nat.strongRecOn generalizing l with
  | ind n ih =>
    subst hn
    cases l with
    | nil => simp
    | cons a l =>
      have hlt : (l.filter fun b => !b == a).length < (a :: l).length := by
        have := List.length_filter_le (fun b => !b == a) l
        simp only [List.length_cons]
        omega
      rw [List.eraseDups_cons, List.nodup_cons]
      refine ⟨fun hm => ?_, ih _ hlt _ rfl⟩
      have := (List.mem_filter.1 (List.mem_eraseDups.1 hm)).2
      simp at this

/-- If both ends of every edge have a component, the pairs are those of edges that leave theirs. -/
theorem crossings_ok {components : List (List Int)} {edges : List Edge}
    (h : ∀ e ∈ edges, (∃ a, componentOf? components e.source = some a) ∧
      ∃ b, componentOf? components e.target = some b) :
    ∃ pairs, crossings components edges = .ok pairs ∧ ∀ a b, (a, b) ∈ pairs ↔
      a ≠ b ∧ ∃ e ∈ edges, componentOf? components e.source = some a ∧
        componentOf? components e.target = some b := by
  induction edges with
  | nil => exact ⟨[], rfl, by simp⟩
  | cons e edges ih =>
    obtain ⟨pairs, hp, hmem⟩ := ih fun e he => h e (.tail _ he)
    obtain ⟨⟨a, ha⟩, b, hb⟩ := h e (.head _)
    refine ⟨if a = b then pairs else (a, b) :: pairs, by simp only [crossings, ha, hb, hp], ?_⟩
    intro x y
    have hhead : (componentOf? components e.source = some x ∧
        componentOf? components e.target = some y) ↔ x = a ∧ y = b := by
      rw [ha, hb, Option.some.injEq, Option.some.injEq, eq_comm, eq_comm (a := b)]
    rw [List.exists_mem_cons_iff, hhead, and_or_left, ← hmem x y]
    by_cases hab : a = b
    · rw [if_pos hab]
      refine ⟨.inr, fun hor => hor.elim (fun hx => ?_) id⟩
      exact absurd (hx.2.1.trans (hab.trans hx.2.2.symm)) hx.1
    · rw [if_neg hab, List.mem_cons, Prod.mk.injEq]
      refine or_congr_left ⟨fun hx => ⟨?_, hx⟩, fun hx => hx.2⟩
      rw [hx.1, hx.2]
      exact hab

theorem mem_condense {components : List (List Int)} {edges : List Edge}
    {pairs : List (Int × Int)} (h : crossings components edges = .ok pairs) :
    ∃ sorted, condense components edges = .ok sorted ∧ sorted.Nodup ∧
      ∀ p, p ∈ sorted ↔ p ∈ pairs := by
  refine ⟨pairs.eraseDups.mergeSort pairBefore, by rw [condense, h]; rfl, ?_, fun p => ?_⟩
  · exact (List.mergeSort_perm _ _).nodup_iff.2 (nodup_eraseDups pairs)
  · rw [List.mem_mergeSort, List.mem_eraseDups]

/-- The pairs in ascending order are those that edges join, each once. -/
theorem condense_eq {components : List (List Int)} {edges : List Edge}
    {crossed sorted : List (Int × Int)} (h : crossings components edges = .ok crossed)
    (hperm : sorted.Perm crossed.eraseDups)
    (hsorted : sorted.Pairwise fun a b => pairBefore a b = true) :
    condense components edges = .ok sorted := by
  have htrans (a b c : Int × Int) (hab : pairBefore a b = true) (hbc : pairBefore b c = true) :
      pairBefore a c = true := by
    simp only [pairBefore, Bool.or_eq_true, Bool.and_eq_true, decide_eq_true_eq, beq_iff_eq] at *
    omega
  have htotal (a b : Int × Int) : (pairBefore a b || pairBefore b a) = true := by
    simp only [pairBefore, Bool.or_eq_true, Bool.and_eq_true, decide_eq_true_eq, beq_iff_eq]
    omega
  have hantisymm (a b : Int × Int) (hab : pairBefore a b = true) (hba : pairBefore b a = true) :
      a = b := by
    simp only [pairBefore, Bool.or_eq_true, Bool.and_eq_true, decide_eq_true_eq, beq_iff_eq] at *
    exact Prod.ext (by omega) (by omega)
  rw [condense, h]
  refine congrArg Except.ok (List.Perm.eq_of_pairwise (fun a b _ _ => hantisymm a b)
    (List.pairwise_mergeSort htrans htotal _) hsorted ?_)
  exact (List.mergeSort_perm _ _).trans hperm.symm

/-! ## The order of components -/

/-- What a position reaches stands in its component or in one with a smaller number. -/
theorem IsComponents.number_lt {edges : List Edge} {vertices : List Int}
    {components : List (List Int)}
    (h : IsComponents (successors edges) vertices components) {a b i j : Int}
    (ha : Holds components a i) (hb : Holds components b j) (hij : Reaches edges i j)
    (hne : a ≠ b) : b < a := by
  obtain ⟨m, c, rfl, hm, hi⟩ := ha
  obtain ⟨k, d, rfl, hk, hj⟩ := hb
  rw [reaches_eq_leads] at hij
  obtain ⟨k', d', hle, hk', hj'⟩ := h.part_le hij hm hi
  have hkk : k = k' := part_unique h.nodup hk hk' hj hj'
  omega

theorem not_transGen_of_lt {pairs : List (Int × Int)} (h : ∀ a b, (a, b) ∈ pairs → b < a)
    (a : Int) :
    ¬ Relation.TransGen (fun a b => (a, b) ∈ pairs) a a := by
  have hlt : ∀ b, Relation.TransGen (fun a b => (a, b) ∈ pairs) a b → b < a := by
    intro b hb
    induction hb with
    | single hp => exact h _ _ hp
    | tail _ hp ih => exact Int.lt_trans (h _ _ hp) ih
  exact fun haa => Int.lt_irrefl a (hlt a haa)

/-! ## Components with the edges between them -/

/-- `components` are the components of `n` nodes, and `pairs` are the edges between them. -/
structure Condensed (n : Nat) (edges : List Edge) (components : List (List Int))
    (pairs : List (Int × Int)) : Prop where
  parts : IsComponents (successors edges) (positions n) components
  nodup : pairs.Nodup
  mem_iff : ∀ a b, (a, b) ∈ pairs ↔
    a ≠ b ∧ ∃ e ∈ edges, Holds components a e.source ∧ Holds components b e.target

theorem IsComponents.exists_holds {next : Int → List Int} {vertices : List Int}
    {components : List (List Int)} (h : IsComponents next vertices components) {i : Int}
    (hi : i ∈ vertices) : ∃ a, Holds components a i := by
  obtain ⟨c, hc, hic⟩ := List.mem_flatten.1 ((h.mem_iff i).2 hi)
  obtain ⟨m, hm⟩ := List.mem_iff_getElem?.1 hc
  exact ⟨m, m, c, rfl, hm, hic⟩

theorem exists_condensed {n : Nat} {edges : List Edge} (h : InRange n edges) :
    ∃ components pairs, componentsOf n edges = .ok components ∧
      condense components edges = .ok pairs ∧ Condensed n edges components pairs := by
  have hC := isComponents (closed_of_inRange h)
  have hholds := fun {a i : Int} => componentOf?_eq_some_iff hC.nodup (i := i) (k := a)
  have hcover : ∀ i ∈ positions n, ∃ a, componentOf? _ i = some a := fun i hi =>
    (hC.exists_holds hi).imp fun _ => hholds.2
  obtain ⟨crossed, hcrossed, hmem⟩ := crossings_ok fun e he =>
    ⟨hcover _ (mem_positions.2 (h e he).1), hcover _ (mem_positions.2 (h e he).2)⟩
  obtain ⟨pairs, hpairs, hnodup, hsame⟩ := mem_condense hcrossed
  refine ⟨_, pairs, componentsOf_eq h, hpairs, hC, hnodup, fun a b => ?_⟩
  simp only [hsame, hmem, hholds, Holds]

namespace Condensed

variable {n : Nat} {edges : List Edge} {components : List (List Int)} {pairs : List (Int × Int)}

/-- The order of the edges between components is left open. -/
theorem perm (h : Condensed n edges components pairs) {ordered : List (Int × Int)}
    (hperm : ordered.Perm pairs) : Condensed n edges components ordered :=
  ⟨h.parts, hperm.nodup_iff.2 h.nodup, fun a b => hperm.mem_iff.trans (h.mem_iff a b)⟩

theorem componentOf?_iff (h : Condensed n edges components pairs) {a i : Int} :
    componentOf? components i = some a ↔ Holds components a i :=
  componentOf?_eq_some_iff h.parts.nodup

theorem holds_unique (h : Condensed n edges components pairs) {a b i : Int}
    (ha : Holds components a i) (hb : Holds components b i) : a = b := by
  have := (h.componentOf?_iff.2 ha).symm.trans (h.componentOf?_iff.2 hb)
  exact Option.some.inj this

theorem exists_componentOf? (h : Condensed n edges components pairs) {i : Int}
    (hi : i ∈ positions n) : ∃ a, componentOf? components i = some a :=
  (h.parts.exists_holds hi).imp fun _ => h.componentOf?_iff.2

/-- A call stays in its component or follows an edge between components. -/
theorem joins (h : Condensed n edges components pairs) {i j a b : Int} (hij : Joins edges i j)
    (ha : Holds components a i) (hb : Holds components b j) : a = b ∨ (a, b) ∈ pairs := by
  obtain ⟨e, he, rfl, rfl⟩ := hij
  by_cases hab : a = b
  · exact .inl hab
  · exact .inr ((h.mem_iff a b).2 ⟨hab, e, he, ha, hb⟩)

/-- Edges between components go to smaller numbers. -/
theorem lt (h : Condensed n edges components pairs) {a b : Int} (hab : (a, b) ∈ pairs) : b < a := by
  obtain ⟨hne, e, he, hs, ht⟩ := (h.mem_iff a b).1 hab
  exact h.parts.number_lt hs ht (.single ⟨e, he, rfl, rfl⟩) hne

/-- The members of a component reach each other. -/
theorem reaches (h : Condensed n edges components pairs) {a i j : Int}
    (hi : Holds components a i) (hj : Holds components a j) : Reaches edges i j := by
  obtain ⟨m, c, rfl, hm, hic⟩ := hi
  rw [reaches_eq_leads]
  exact h.parts.strong c (List.mem_of_getElem? hm) i hic j ((holds_iff_mem hm).1 hj)

end Condensed

/-! ## The graph of components -/

/-- If the edges are `InRange`, `componentsOf` and `condense` answer. Two components are joined iff
they differ and an edge leads from the one to the other, and each pair stands once. A pair goes to a
smaller number, a component has a larger number than every other one that it `Reaches`, and so there
is no circle. -/
theorem condense_exact (n : Nat) (edges : List Edge) (h : InRange n edges) :
    ∃ components pairs, componentsOf n edges = .ok components ∧
      condense components edges = .ok pairs ∧
      (∀ a b, (a, b) ∈ pairs ↔
        a ≠ b ∧ ∃ e ∈ edges, Holds components a e.source ∧ Holds components b e.target) ∧
      pairs.Nodup ∧
      (∀ a b, (a, b) ∈ pairs → b < a) ∧
      (∀ a b i j, Holds components a i → Holds components b j → Reaches edges i j → a ≠ b →
        b < a) ∧
      ∀ a, ¬ Relation.TransGen (fun a b => (a, b) ∈ pairs) a a := by
  obtain ⟨components, pairs, hcomponents, hpairs, hcondensed⟩ := exists_condensed h
  exact ⟨components, pairs, hcomponents, hpairs, hcondensed.mem_iff, hcondensed.nodup,
    fun a b hab => hcondensed.lt hab,
    fun a b i j ha hb hij hne => hcondensed.parts.number_lt ha hb hij hne,
    not_transGen_of_lt fun a b hab => hcondensed.lt hab⟩

/-- Two calls lead from one circle to the other and none leads back. -/
theorem condense_exact_twoCircles :
    InRange 5 twoCircles ∧ componentsOf 5 twoCircles = .ok [[3, 4], [2, 1, 0]] ∧
      condense [[3, 4], [2, 1, 0]] twoCircles = .ok [(1, 0)] ∧
      (∃ e ∈ twoCircles, Holds [[3, 4], [2, 1, 0]] 1 e.source ∧
        Holds [[3, 4], [2, 1, 0]] 0 e.target) ∧
      ¬ Reaches twoCircles 3 0 := by
  have hr : InRange 5 twoCircles := by decide
  have hc : componentsOf 5 twoCircles = .ok [[3, 4], [2, 1, 0]] := by rfl
  have hcross : crossings [[3, 4], [2, 1, 0]] twoCircles = .ok [(1, 0), (1, 0)] := rfl
  have hp : condense [[3, 4], [2, 1, 0]] twoCircles = .ok [(1, 0)] :=
    condense_eq hcross (by decide) (by decide)
  obtain ⟨components, pairs, hcs, hps, hiff, -, -, horder, -⟩ := condense_exact 5 twoCircles hr
  rw [hc, Except.ok.injEq] at hcs
  subst hcs
  rw [hp, Except.ok.injEq] at hps
  subst hps
  refine ⟨hr, hc, hp, ((hiff 1 0).1 (by decide)).2, fun h => ?_⟩
  have := horder 0 1 3 0 ⟨0, _, rfl, rfl, by decide⟩ ⟨1, _, rfl, rfl, by decide⟩ h (by decide)
  omega

end CallAtlas.Graph
