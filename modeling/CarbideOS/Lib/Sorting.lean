import Mathlib

namespace Sorting

/-- What is greater in some respect comes first. -/
def descending {α β : Type} [Ord β] (f : α → β) (a b : α) : Ordering := compare (f b) (f a)

instance {α β : Type} [Ord β] [Std.TransOrd β] (f : α → β) : Std.TransCmp (descending f) where
  eq_swap := Std.OrientedOrd.eq_swap
  isLE_trans first second := Std.TransOrd.isLE_trans second first

variable {α : Type} {cmp : α → α → Ordering} [Std.TransCmp cmp] {l l' : List α}

/-- The comparison as a test for the sort. -/
def notAfter (cmp : α → α → Ordering) (a b : α) : Bool := (cmp a b).isLE

theorem pairwise_sorted (l : List α) :
    (l.mergeSort (notAfter cmp)).Pairwise fun a b => (cmp a b).isLE = true := by
  refine List.pairwise_mergeSort ?_ ?_ l
  · intro a b c first second
    exact Std.TransCmp.isLE_trans first second
  · intro a b
    cases compared : cmp a b with
    | lt => rfl
    | eq => rfl
    | gt =>
      have back : cmp b a = .lt := Std.OrientedCmp.lt_of_gt compared
      simp [back]

/-- Where only equal elements compare as equal, what a sort gives depends on what is in the
list alone. -/
theorem sorted_of_perm (strict : ∀ a ∈ l, ∀ b ∈ l, cmp a b = .eq → a = b) (same : l'.Perm l) :
    l'.mergeSort (notAfter cmp) = l.mergeSort (notAfter cmp) := by
  have both : (l'.mergeSort (notAfter cmp)).Perm (l.mergeSort (notAfter cmp)) :=
    ((List.mergeSort_perm l' _).trans same).trans (List.mergeSort_perm l _).symm
  refine both.eq_of_pairwise ?_ (pairwise_sorted l') (pairwise_sorted l)
  intro a b ha hb first second
  have inA : a ∈ l := same.subset ((List.mergeSort_perm l' _).subset ha)
  have inB : b ∈ l := (List.mergeSort_perm l _).subset hb
  exact strict a inA b inB (Std.OrientedCmp.isLE_antisymm first second)

end Sorting
