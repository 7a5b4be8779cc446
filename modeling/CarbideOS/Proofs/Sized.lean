import CarbideOS.Extensions.Sizes

namespace CarbideOS.Extensions

variable {z reserve : Int} {n : Nat}

theorem long_eq (low : -2 ^ 63 ≤ z) (high : z < 2 ^ 63) : long z = z := by
  unfold long
  rw [Int.bmod_def]
  split <;> omega

/-- The tree takes less than a 64th of what it is above, and two blocks. -/
theorem treeBlocks_le (n : Nat) : treeBlocks n ≤ n / 64 + 2 := by
  induction n using Nat.strong_induction_on with
  | _ n ih =>
    rw [treeBlocks]
    split
    · exact Nat.zero_le _
    · rename_i more
      have above := ih ((n + 127) / 128) (by omega)
      by_cases one : (n + 127) / 128 = 1
      · rw [one, treeBlocks, if_pos (Nat.le_refl 1)]
        omega
      · omega

theorem verityBytes_eq (h : (n : Int) * 4096 < 2 ^ 63) :
    verityBytes (n * 4096) = n * 64 + 2 ^ 20 := by
  have part : ((n : Int) * 4096).tdiv 64 = n * 64 := by
    rw [Int.tdiv_eq_ediv_of_nonneg (by omega)]
    omega
  have reserve : long (1024 * 1024) = 2 ^ 20 := by decide
  unfold verityBytes
  rw [part, long_eq (z := n * 64) (by omega) (by omega), reserve, long_eq (by omega) (by omega)]

/-- The tree fits in the bound on the hash partition. -/
theorem hash_fits (h : (n : Int) * 4096 < 2 ^ 63) :
    (hashBytes n : Int) ≤ verityBytes (n * 4096) / 4096 * 4096 := by
  have tree := treeBlocks_le n
  rw [verityBytes_eq h, hashBytes]
  omega

/-- The bytes that a build adds up for an image of so many blocks. -/
def addedBytes (reserve : Int) (n : Nat) : Int :=
  n * 4096 + (n * 64 + 2 ^ 20) + 16384 + reserve + 1048575

theorem imageMib_eq (positive : 0 ≤ reserve) (h : addedBytes reserve n < 2 ^ 63) :
    imageMib reserve (n * 4096) = addedBytes reserve n / 1048576 := by
  unfold addedBytes at h
  have verity := verityBytes_eq (n := n) (by omega)
  unfold imageMib imageBytes addedBytes
  rw [verity, long_eq (z := n * 4096 + (n * 64 + 2 ^ 20)) (by omega) (by omega),
    long_eq (z := n * 4096 + (n * 64 + 2 ^ 20) + 16384) (by omega) (by omega),
    long_eq (z := n * 4096 + (n * 64 + 2 ^ 20) + 16384 + reserve) (by omega) (by omega),
    long_eq (by omega) (by omega), Int.tdiv_eq_ediv_of_nonneg (by omega)]

/-- With either reserve, the tree fits in its partition, and everything in the image, as long as
what is added up is a number to the shell. -/
theorem image_fits (n : Nat) (reserve : Int)
    (build : reserve ∈ [watchtowerReserve, chromeReserve]) (h : addedBytes reserve n < 2 ^ 63) :
    (hashBytes n : Int) ≤ verityBytes (n * 4096) / 4096 * 4096 ∧
      n * 4096 + verityBytes (n * 4096) / 4096 * 4096 + 16384 + 2 ^ 20 + 20480 ≤
        imageMib reserve (n * 4096) * 2 ^ 20 := by
  have enough : 2 * 2 ^ 20 ≤ reserve := by
    simp only [List.mem_cons, List.not_mem_nil, or_false] at build
    rcases build with rfl | rfl <;> decide
  rw [imageMib_eq (by omega) h]
  unfold addedBytes at h ⊢
  refine ⟨hash_fits (by omega), ?_⟩
  rw [verityBytes_eq (by omega)]
  omega

theorem image_fits_levels : (hashBytes 100000 : Int) ≤
      verityBytes ((100000 : Nat) * 4096) / 4096 * 4096 ∧
    ((100000 : Nat) : Int) * 4096 + verityBytes ((100000 : Nat) * 4096) / 4096 * 4096 + 16384 +
      2 ^ 20 + 20480 ≤ imageMib chromeReserve ((100000 : Nat) * 4096) * 2 ^ 20 :=
  image_fits 100000 chromeReserve (by decide) (by decide)

/-- Three levels of digests. -/
example : treeBlocks 100000 = 782 + 7 + 1 := by
  simp [treeBlocks]

/-- Past the numbers of the shell, the size of the image is negative. -/
theorem image_wraps : ¬ (((2 ^ 51 - 1 : Nat) : Int) * 4096 +
    verityBytes ((2 ^ 51 - 1 : Nat) * 4096) / 4096 * 4096 + 16384 + 2 ^ 20 + 20480 ≤
      imageMib chromeReserve ((2 ^ 51 - 1 : Nat) * 4096) * 2 ^ 20) := by
  decide

end CarbideOS.Extensions
