import Mathlib

namespace CarbideOS.Extensions

/-- What the arithmetic of a shell keeps of a number. -/
def long (z : Int) : Int := z.bmod (2 ^ 64)

/-- The most that the hash partition may take. -/
def verityBytes (erofsBytes : Int) : Int :=
  long (long (erofsBytes.tdiv 64) + long (1024 * 1024))

/-- The size of an image with so much of a reserve. -/
def imageBytes (reserve erofsBytes : Int) : Int :=
  long (long (long (erofsBytes + verityBytes erofsBytes) + 16384) + reserve)

def imageMib (reserve erofsBytes : Int) : Int :=
  (long (imageBytes reserve erofsBytes + 1048575)).tdiv 1048576

def watchtowerReserve : Int := long (long (16 * 1024) * 1024)

def chromeReserve : Int := long (long (2 * 1024) * 1024)

/-- The blocks of the levels of digests above so many blocks, a block of digests for each
128 blocks below it, up to a level of one block. -/
def treeBlocks (blocks : Nat) : Nat :=
  if blocks ≤ 1 then 0 else (blocks + 127) / 128 + treeBlocks ((blocks + 127) / 128)
termination_by blocks
decreasing_by omega

/-- A hash partition: a superblock, and the tree. -/
def hashBytes (blocks : Nat) : Nat := 4096 * (1 + treeBlocks blocks)

end CarbideOS.Extensions
