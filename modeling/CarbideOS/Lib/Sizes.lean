import Mathlib

namespace Sizes

variable {κ β : Type} {cmp : κ → κ → Ordering} [Std.TransCmp cmp]

/-- The length of everything a map of lists holds. -/
def total (m : Std.ExtTreeMap κ (List β) cmp) : Nat :=
  (m.keys.map fun k => (m[k]?.getD []).length).sum

variable [DecidableEq κ]

theorem total_eq_sum (m : Std.ExtTreeMap κ (List β) cmp) :
    total m = ∑ k ∈ m.keys.toFinset, (m[k]?.getD []).length :=
  (List.sum_toFinset _ Std.ExtTreeMap.nodup_keys).symm

variable [Std.LawfulEqCmp cmp]

/-- The keys of a map with one more can be summed over instead of its own. -/
theorem total_eq_sum_insert (m : Std.ExtTreeMap κ (List β) cmp) (k : κ) :
    total m = ∑ j ∈ insert k m.keys.toFinset, (m[j]?.getD []).length := by
  rw [total_eq_sum]
  refine Finset.sum_subset (Finset.subset_insert k _) fun j _ hj => ?_
  have hm : j ∉ m := by simpa using hj
  simp [hm]

theorem total_insert (m : Std.ExtTreeMap κ (List β) cmp) (k : κ) (l : List β) :
    total (m.insert k l) + (m[k]?.getD []).length = total m + l.length := by
  have hk : (m.insert k l).keys.toFinset = insert k m.keys.toFinset := by
    ext j
    simp [eq_comm (a := j)]
  have rest : ∑ j ∈ m.keys.toFinset.erase k, ((m.insert k l)[j]?.getD []).length =
      ∑ j ∈ m.keys.toFinset.erase k, (m[j]?.getD []).length := by
    refine Finset.sum_congr rfl fun j hj => ?_
    have hn : k ≠ j := (Finset.ne_of_mem_erase hj).symm
    simp [Std.ExtTreeMap.getElem?_insert, hn]
  rw [total_eq_sum, hk, total_eq_sum_insert m k]
  rw [← Finset.insert_erase (Finset.mem_insert_self k m.keys.toFinset),
    Finset.erase_insert_eq_erase,
    Finset.sum_insert (Finset.notMem_erase k _), Finset.sum_insert (Finset.notMem_erase k _), rest]
  simp
  omega

theorem total_erase (m : Std.ExtTreeMap κ (List β) cmp) (k : κ) :
    total (m.erase k) + (m[k]?.getD []).length = total m := by
  have hk : (m.erase k).keys.toFinset = m.keys.toFinset.erase k := by
    ext j
    simp [eq_comm (a := j)]
  have rest : ∑ j ∈ m.keys.toFinset.erase k, ((m.erase k)[j]?.getD []).length =
      ∑ j ∈ m.keys.toFinset.erase k, (m[j]?.getD []).length := by
    refine Finset.sum_congr rfl fun j hj => ?_
    have hn : k ≠ j := (Finset.ne_of_mem_erase hj).symm
    simp [Std.ExtTreeMap.getElem?_erase, hn]
  rw [total_eq_sum, hk, total_eq_sum_insert m k]
  rw [← Finset.insert_erase (Finset.mem_insert_self k m.keys.toFinset),
    Finset.erase_insert_eq_erase,
    Finset.sum_insert (Finset.notMem_erase k _), rest]
  omega

theorem total_erase_le (m : Std.ExtTreeMap κ (List β) cmp) (k : κ) :
    total (m.erase k) ≤ total m := by
  have h := total_erase m k
  omega

theorem total_foldl_erase_le (ks : List κ) (m : Std.ExtTreeMap κ (List β) cmp) :
    total (ks.foldl (fun m k => m.erase k) m) ≤ total m := by
  induction ks generalizing m with
  | nil => exact le_rfl
  | cons k ks ih => exact (ih (m.erase k)).trans (total_erase_le m k)

end Sizes
