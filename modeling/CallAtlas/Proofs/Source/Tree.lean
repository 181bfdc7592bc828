import CallAtlas.Source.Tree

/-! # Nodes below nodes

The nodes below a node of a tree are nodes of the tree (`Tree.mem_preorder_trans`), whether they are
listed as trees or with a cursor (`Cursor.tree_mem_preorder`). -/

namespace CallAtlas

namespace Tree

theorem mem_preorder_self (t : Tree) : t ∈ t.preorder := by
  cases t
  rw [preorder]
  exact .head _

theorem mem_preorderAll {ts : List Tree} {b : Tree} :
    b ∈ preorderAll ts ↔ ∃ t ∈ ts, b ∈ t.preorder := by
  induction ts with
  | nil => simp [preorderAll]
  | cons t ts ih => simp [preorderAll, ih]

mutual
theorem mem_preorder_trans : {a b c : Tree} → b ∈ a.preorder → c ∈ b.preorder → c ∈ a.preorder
  | .node k s e r cs, b, c, hb, hc => by
    rw [preorder] at hb
    rcases List.mem_cons.1 hb with rfl | hb
    · exact hc
    · rw [preorder]
      exact .tail _ (mem_preorderAll_trans hb hc)
theorem mem_preorderAll_trans : {ts : List Tree} → {b c : Tree} →
    b ∈ preorderAll ts → c ∈ b.preorder → c ∈ preorderAll ts
  | [], _, _, hb, _ => by simp [preorderAll] at hb
  | t :: ts, b, c, hb, hc => by
    rw [preorderAll] at hb ⊢
    rcases List.mem_append.1 hb with hb | hb
    · exact List.mem_append_left _ (mem_preorder_trans hb hc)
    · exact List.mem_append_right _ (mem_preorderAll_trans hb hc)
end

theorem mem_preorder_of_mem_children {t c : Tree} (h : c ∈ t.children) : c ∈ t.preorder := by
  cases t
  rw [preorder]
  exact .tail _ (mem_preorderAll.2 ⟨c, h, c.mem_preorder_self⟩)

/-- A child with a role is a node of every tree that its parent is a node of. -/
theorem child?_mem_preorder {root t c : Tree} {role : String} (ht : t ∈ root.preorder)
    (h : t.child? role = some c) : c ∈ root.preorder :=
  mem_preorder_trans ht (mem_preorder_of_mem_children (List.mem_of_find?_eq_some h))

theorem mem_ofKind {kind : String} {root t : Tree} :
    t ∈ root.ofKind kind ↔ t ∈ root.preorder ∧ t.kind = kind := by
  simp [ofKind, List.mem_filter]

/-- The nodes of a kind below a node are among those of the tree. -/
theorem ofKind_subset {kind : String} {root t : Tree} (ht : t ∈ root.preorder) {b : Tree}
    (hb : b ∈ t.ofKind kind) : b ∈ root.ofKind kind := by
  obtain ⟨hb, hk⟩ := mem_ofKind.1 hb
  exact mem_ofKind.2 ⟨mem_preorder_trans ht hb, hk⟩

end Tree

namespace Cursor

theorem tree_mem_preorder {kind : String} {root : Tree} {c : Cursor} (h : c ∈ ofKind kind root) :
    c.tree ∈ root.preorder := by
  rw [← map_tree_all]
  exact List.mem_map_of_mem (List.mem_filter.1 h).1

mutual
theorem before_of_mem_walk {above before : List Tree} {c : Cursor} :
    {t : Tree} → c ∈ walk above before t → ∀ b ∈ c.before, b ∈ before ∨ b ∈ t.preorder
  | .node k s e r cs, h, b, hb => by
    rw [walk] at h
    rcases List.mem_cons.1 h with rfl | h
    · exact .inl hb
    · rw [Tree.preorder]
      rcases before_of_mem_walkAll h b hb with h | h
      · cases h
      · exact .inr (.tail _ h)
theorem before_of_mem_walkAll {above before : List Tree} {c : Cursor} :
    {ts : List Tree} → c ∈ walkAll above before ts →
      ∀ b ∈ c.before, b ∈ before ∨ b ∈ Tree.preorderAll ts
  | [], h, _, _ => by simp [walkAll] at h
  | t :: ts, h, b, hb => by
    rw [walkAll] at h
    rw [Tree.preorderAll]
    rcases List.mem_append.1 h with h | h
    · exact (before_of_mem_walk h b hb).imp_right fun hm => List.mem_append_left _ hm
    · rcases before_of_mem_walkAll h b hb with hm | hm
      · rcases List.mem_cons.1 hm with rfl | hm
        · exact .inr (List.mem_append_left _ b.mem_preorder_self)
        · exact .inl hm
      · exact .inr (List.mem_append_right _ hm)
end

/-- What stands before a node of a tree is in the tree. -/
theorem before_mem_preorder {root : Tree} {c : Cursor} (h : c ∈ all root) :
    ∀ b ∈ c.before, b ∈ root.preorder := by
  intro b hb
  exact (before_of_mem_walk h b hb).resolve_left (by simp)

end Cursor

end CallAtlas
