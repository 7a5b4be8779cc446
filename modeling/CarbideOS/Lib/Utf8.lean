import Mathlib

namespace Text

/-! Texts by byte offset. A slice at an offset inside a character is a panic. -/

/-- The bytes of a text. -/
def bytes (l : List Char) : Nat := (l.map Char.utf8Size).sum

/-- The offsets at which the characters of a text start. -/
def charIndices : Nat → List Char → List Nat
  | _, [] => []
  | offset, c :: cs => offset :: charIndices (offset + c.utf8Size) cs

/-- The parts before and after a byte offset, when it is a character boundary. -/
def splitAtByte : Nat → List Char → Option (List Char × List Char)
  | 0, l => some ([], l)
  | _ + 1, [] => none
  | n + 1, c :: cs =>
    if c.utf8Size ≤ n + 1 then (splitAtByte (n + 1 - c.utf8Size) cs).map fun p => (c :: p.1, p.2)
    else none

variable {l a b : List Char} {c : Char} {n i : Nat}

@[simp] theorem bytes_nil : bytes [] = 0 := rfl

@[simp] theorem bytes_cons : bytes (c :: l) = c.utf8Size + bytes l := by simp [bytes]

@[simp] theorem bytes_append : bytes (a ++ b) = bytes a + bytes b := by simp [bytes]

theorem bytes_toList (s : String) : bytes s.toList = s.utf8ByteSize := by
  have size : ∀ l : List Char, bytes l = (String.ofList l).utf8ByteSize := by
    intro l
    induction l with
    | nil => rfl
    | cons c l ih =>
      have whole : String.ofList (c :: l) = String.ofList [c] ++ String.ofList l := by
        rw [← String.ofList_append]
        rfl
      rw [bytes_cons, ih, whole, String.utf8ByteSize_append]
      simp
  rw [size, String.ofList_toList]

/-- What is not empty takes room. -/
theorem bytes_pos (h : l ≠ []) : 0 < bytes l := by
  cases l with
  | nil => exact absurd rfl h
  | cons c l =>
    have := c.utf8Size_pos
    simp
    omega

/-- A slice is a part of the text, at that offset. -/
theorem splitAtByte_eq_some : splitAtByte n l = some (a, b) ↔ l = a ++ b ∧ bytes a = n := by
  induction l generalizing n a with
  | nil =>
    cases n with
    | zero => cases a <;> simp [splitAtByte, eq_comm]
    | succ n =>
      simp only [splitAtByte]
      constructor
      · intro no
        cases no
      · rintro ⟨whole, size⟩
        obtain ⟨rfl, rfl⟩ := List.append_eq_nil_iff.mp whole.symm
        cases size
  | cons c l ih =>
    have pos := c.utf8Size_pos
    cases n with
    | zero =>
      cases a with
      | nil => simp [splitAtByte, eq_comm]
      | cons d a =>
        have := d.utf8Size_pos
        simp [splitAtByte]
        omega
    | succ n =>
      simp only [splitAtByte]
      cases a with
      | nil =>
        split <;> simp
      | cons d a =>
        split
        · rename_i fits
          simp only [Option.map_eq_some_iff, Prod.exists, Prod.mk.injEq, List.cons.injEq,
            List.cons_append, bytes_cons]
          constructor
          · rintro ⟨a', b', part, ⟨rfl, rfl⟩, rfl⟩
            obtain ⟨rfl, size⟩ := ih.mp part
            exact ⟨⟨rfl, rfl⟩, by omega⟩
          · rintro ⟨⟨rfl, rfl⟩, size⟩
            exact ⟨a, b, ih.mpr ⟨rfl, by omega⟩, ⟨rfl, rfl⟩, rfl⟩
        · rename_i long
          simp only [List.cons_append, List.cons.injEq, bytes_cons]
          constructor
          · intro no
            cases no
          · rintro ⟨⟨rfl, rfl⟩, size⟩
            omega

/-- The first character that starts at or after an offset starts less than a character
behind it, unless it is the first of all. -/
theorem find_charIndices {offset : Nat}
    (h : (charIndices offset l).find? (fun index => decide (n ≤ index)) = some i) :
    ∃ a b, l = a ++ b ∧ b ≠ [] ∧ i = offset + bytes a ∧ n ≤ i ∧ (i < n + 4 ∨ a = []) := by
  induction l generalizing offset with
  | nil => cases h
  | cons c cs ih =>
    rw [charIndices, List.find?_cons] at h
    by_cases here : n ≤ offset
    · rw [decide_eq_true here] at h
      obtain rfl := Option.some.inj h
      exact ⟨[], c :: cs, rfl, List.cons_ne_nil _ _, rfl, here, .inr rfl⟩
    · rw [decide_eq_false here] at h
      obtain ⟨a, b, rfl, some_, rfl, reached, near⟩ := ih h
      have small := c.utf8Size_le_four
      refine ⟨c :: a, b, rfl, some_, ?_, reached, .inl ?_⟩
      · rw [bytes_cons, Nat.add_assoc]
      · rcases near with near | rfl
        · exact near
        · rw [bytes_nil]
          omega

/-- Where no character starts at or after an offset, the text ends less than a character
behind it. -/
theorem find_charIndices_none {offset : Nat}
    (h : (charIndices offset l).find? (fun index => decide (n ≤ index)) = none) :
    l = [] ∨ offset + bytes l < n + 4 := by
  induction l generalizing offset with
  | nil => exact .inl rfl
  | cons c cs ih =>
    rw [charIndices, List.find?_cons] at h
    by_cases here : n ≤ offset
    · rw [decide_eq_true here] at h
      cases h
    · rw [decide_eq_false here] at h
      have small := c.utf8Size_le_four
      rw [bytes_cons]
      rcases ih h with rfl | near
      · rw [bytes_nil]
        omega
      · omega

def utf8 (l : List Char) : List UInt8 := l.flatMap String.utf8EncodeChar

/-- The text that some bytes are, unless they are not UTF-8. -/
def decode (encoded : List UInt8) : Option (List Char) :=
  encoded.toByteArray.utf8Decode?.map Array.toList

theorem decode_utf8 (l : List Char) : decode (utf8 l) = some l := by
  have whole := List.utf8Decode?_utf8Encode (l := l)
  rw [List.utf8Encode] at whole
  rw [decode, utf8, whole]
  rfl

/-- What is read as a text is that text in bytes. -/
theorem decode_eq_some {encoded : List UInt8} : decode encoded = some l ↔ encoded = utf8 l := by
  constructor
  · intro read
    have valid : encoded.toByteArray.utf8Decode?.isSome := by
      rw [decode] at read
      rw [← Option.isSome_map (f := Array.toList), read]
      rfl
    obtain ⟨m, same⟩ := ByteArray.isSome_utf8Decode?_iff.mp valid
    have chars : encoded = utf8 m := by
      have data := congrArg (fun b => b.data.toList) same
      simpa [List.utf8Encode, utf8] using data
    rw [chars, decode_utf8] at read
    rw [chars, Option.some.inj read]
  · rintro rfl
    exact decode_utf8 l

end Text
