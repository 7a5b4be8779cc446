import Mathlib

namespace Text

/-- The units that some bytes are. An odd byte at the end is none. -/
def units : List UInt8 → List Nat
  | low :: high :: rest => (low.toNat + 256 * high.toNat) :: units rest
  | _ => []

def isAlone (u : Nat) : Bool := u < 0xD800 || (0xE000 ≤ u && u < 0x10000)

def isPair (u v : Nat) : Bool := 0xD800 ≤ u && u < 0xDC00 && 0xDC00 ≤ v && v < 0xE000

/-- The text that some units are, unless one half of a pair is without the other. -/
def decode16 : List Nat → Option (List Char)
  | [] => some []
  | [u] => if isAlone u then some [Char.ofNat u] else none
  | u :: v :: rest =>
    if isAlone u then (decode16 (v :: rest)).map (Char.ofNat u :: ·)
    else if isPair u v then
      (decode16 rest).map (Char.ofNat (0x10000 + (u - 0xD800) * 0x400 + (v - 0xDC00)) :: ·)
    else none

def encode16 (c : Char) : List Nat :=
  if c.toNat < 0x10000 then [c.toNat]
  else [0xD800 + (c.toNat - 0x10000) / 0x400, 0xDC00 + (c.toNat - 0x10000) % 0x400]

def utf16 (l : List Char) : List Nat := l.flatMap encode16

def littleEndian (l : List Nat) : List UInt8 :=
  l.flatMap fun u => [UInt8.ofNat u, UInt8.ofNat (u / 256)]

theorem decode16_alone {u : Nat} (alone : isAlone u = true) (rest : List Nat) :
    decode16 (u :: rest) = (decode16 rest).map (Char.ofNat u :: ·) := by
  cases rest with
  | nil => simp [decode16, alone]
  | cons v rest => simp [decode16, alone]

theorem decode16_pair {u v : Nat} (pair : isPair u v = true) (rest : List Nat) :
    decode16 (u :: v :: rest) = (decode16 rest).map
      (Char.ofNat (0x10000 + (u - 0xD800) * 0x400 + (v - 0xDC00)) :: ·) := by
  have not_alone : isAlone u = false := by
    simp only [isPair, Bool.and_eq_true, decide_eq_true_eq] at pair
    simp only [isAlone, Bool.or_eq_false_iff, Bool.and_eq_false_iff, decide_eq_false_iff_not]
    omega
  simp [decode16, not_alone, pair]

theorem decode16_encode16 (c : Char) (rest : List Nat) :
    decode16 (encode16 c ++ rest) = (decode16 rest).map (c :: ·) := by
  have valid : c.toNat < 0xD800 ∨ 0xDFFF < c.toNat ∧ c.toNat < 0x110000 := c.valid
  unfold encode16
  split
  · have alone : isAlone c.toNat = true := by
      simp only [isAlone, Bool.or_eq_true, Bool.and_eq_true, decide_eq_true_eq]
      omega
    change decode16 (c.toNat :: rest) = _
    rw [decode16_alone alone, Char.ofNat_toNat]
  · have pair : isPair (0xD800 + (c.toNat - 0x10000) / 0x400)
        (0xDC00 + (c.toNat - 0x10000) % 0x400) = true := by
      simp only [isPair, Bool.and_eq_true, decide_eq_true_eq]
      omega
    have whole : 0x10000 + (0xD800 + (c.toNat - 0x10000) / 0x400 - 0xD800) * 0x400 +
        (0xDC00 + (c.toNat - 0x10000) % 0x400 - 0xDC00) = c.toNat := by
      omega
    change decode16 (_ :: _ :: rest) = _
    rw [decode16_pair pair, whole, Char.ofNat_toNat]

theorem decode16_utf16 (l : List Char) : decode16 (utf16 l) = some l := by
  induction l with
  | nil => rfl
  | cons c l ih =>
    rw [utf16, List.flatMap_cons, decode16_encode16, ← utf16, ih]
    rfl

theorem utf16_lt {l : List Char} {u : Nat} (member : u ∈ utf16 l) : u < 0x10000 := by
  obtain ⟨c, -, inside⟩ := List.mem_flatMap.mp member
  have valid : c.toNat < 0xD800 ∨ 0xDFFF < c.toNat ∧ c.toNat < 0x110000 := c.valid
  unfold encode16 at inside
  split at inside
  · rename_i small
    obtain rfl := List.mem_singleton.mp inside
    exact small
  · simp only [List.mem_cons, List.not_mem_nil, or_false] at inside
    omega

/-- Only a null character has a unit that is zero. -/
theorem utf16_ne_zero {l : List Char} (text : '\x00' ∉ l) {u : Nat} (member : u ∈ utf16 l) :
    u ≠ 0 := by
  obtain ⟨c, here, inside⟩ := List.mem_flatMap.mp member
  unfold encode16 at inside
  split at inside
  · obtain rfl := List.mem_singleton.mp inside
    intro zero
    have null : c = '\x00' := by
      rw [← Char.ofNat_toNat c, zero]
    exact text (null ▸ here)
  · simp only [List.mem_cons, List.not_mem_nil, or_false] at inside
    omega

theorem units_littleEndian {l : List Nat} (small : ∀ u ∈ l, u < 0x10000) (rest : List UInt8) :
    units (littleEndian l ++ rest) = l ++ units rest := by
  induction l with
  | nil => rfl
  | cons u l ih =>
    have here := small u List.mem_cons_self
    have first : (UInt8.ofNat u).toNat + 256 * (UInt8.ofNat (u / 256)).toNat = u := by
      rw [UInt8.toNat_ofNat', UInt8.toNat_ofNat']
      omega
    change _ :: units (littleEndian l ++ rest) = _
    rw [first, ih fun v member => small v (List.mem_cons_of_mem _ member)]
    rfl

/-- A text that ends in a null unit is read up to there. -/
theorem takeWhile_units {l : List Char} (text : '\x00' ∉ l) (rest : List UInt8) :
    (units (littleEndian (utf16 l) ++ 0 :: 0 :: rest)).takeWhile (· != 0) = utf16 l := by
  rw [units_littleEndian fun u => utf16_lt]
  change (utf16 l ++ 0 :: units rest).takeWhile (· != 0) = utf16 l
  rw [List.takeWhile_append_of_pos fun u member => by simpa using utf16_ne_zero text member]
  simp

end Text
