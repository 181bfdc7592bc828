import CallAtlas.Indexer
import CallAtlas.Library.Standard
import Mathlib.Algebra.Order.Ring.Nat

/-! # What is asked of libraries

Where symbols keep the members of the enumeration (`Library.KeepsMembers`), it makes no difference
whether a symbol was loaded: an indexer holds it with the same type (`Indexer.typeOf_eq`), and every
index can be saved (`Indexer.isSavable_eq`). `Library.standard` has all that is asked for. -/

namespace CallAtlas

namespace Indexer

variable [Library]

theorem typeOf_eq (h : Library.KeepsMembers) (x : Indexer) (s : Symbol) :
    x.typeOf s = .member s.kind := by
  rw [typeOf, h s.kind, ite_self]

theorem isSavable_eq (h : Library.KeepsMembers) (x : Indexer) (f : Store.Format) :
    x.isSavable f = true := by
  cases f with
  | document => simp [isSavable, typeOf_eq h, SymbolType.value?]
  | database => rfl

theorem save_eq (h : Library.KeepsMembers) (x : Indexer) (fs : Files) (f : Store.Format)
    (p : Path) : x.save fs f p = Store.save fs f p x.index.snapshot := by
  rw [save, isSavable_eq h]
  rcases Store.save fs f p x.index.snapshot with ⟨saved, _ | e⟩ <;> rfl

end Indexer

namespace Library

theorem keepsMembers_standard : @KeepsMembers standard := fun _ => rfl

theorem findsEmpty_standard : @FindsEmpty standard := by
  have hparse : Pattern.parse "" = .ok .empty := by decide +kernel
  refine ⟨Pattern.empty.occursIn, ?_, fun name => ?_⟩
  · show (Pattern.parse "").map Pattern.occursIn = _
    rw [hparse]
    rfl
  · have hplaces : 1 < Nat.pow 2 (name.runes.length + 1) :=
      Nat.one_lt_two_pow (Nat.succ_ne_zero _)
    simp only [Pattern.occursIn, Pattern.plan, Pattern.Plan.image, Nat.and_self, Pattern.allPlaces,
      bne_iff_ne]
    omega

end Library

end CallAtlas
