import CarbideOS.Agent.Protocol

namespace CarbideOS.Agent.Failure

variable {f : Failure} {stderr text : String} {a b : List Char}

/-- A text is blank when there is nothing but space in it. -/
def Blank (text : String) : Prop := ∀ c ∈ text.toList, Text.isWhitespace c = true

theorem trim_empty : (Text.trim stderr).isEmpty = true ↔ Blank stderr := by
  rw [String.isEmpty_iff]
  constructor
  · intro nothing c there
    by_contra solid
    have kept : c ∈ (Text.trim stderr).toList := Text.mem_trimBy there (eq_false_of_ne_true solid)
    rw [nothing] at kept
    cases kept
  · intro blank
    have gone : stderr.toList.dropWhile Text.isWhitespace = [] :=
      List.dropWhile_eq_nil_iff.mpr blank
    rw [Text.trim, Text.trimBy, gone]
    rfl

/-- The kept part is the end of the text, from a character on, and as long as it may be but
for less than a character. -/
theorem keptFrom_splits (long : stderrLimit < text.utf8ByteSize) :
    ∃ a b, Text.splitAtByte (keptFrom text) text.toList = some (a, b) ∧ text.toList = a ++ b ∧
      Text.bytes b ≤ stderrLimit ∧ stderrLimit < Text.bytes b + 4 := by
  have size := Text.bytes_toList text
  cases found : (Text.charIndices 0 text.toList).find?
      (fun index => decide (text.utf8ByteSize - stderrLimit ≤ index)) with
  | none =>
    rcases Text.find_charIndices_none found with nothing | near
    · rw [nothing, Text.bytes_nil] at size
      omega
    · have limit : stderrLimit = 4096 := rfl
      omega
  | some i =>
    obtain ⟨a, b, whole, -, here, reached, near⟩ := Text.find_charIndices found
    rw [whole, Text.bytes_append] at size
    have cut : keptFrom text = i := by
      rw [keptFrom, found]
      rfl
    refine ⟨a, b, Text.splitAtByte_eq_some.mpr ⟨whole, ?_⟩, whole, ?_, ?_⟩
    · rw [cut, here, Nat.zero_add]
    · omega
    · rcases near with near | rfl
      · omega
      · rw [Text.bytes_nil] at here
        omega

/-- Reading on to the offset gives the same part. -/
theorem textFrom_eq {start offset i : Nat} {l : List Char}
    (found : (Text.charIndices offset l).find? (fun index => decide (start ≤ index)) = some i) :
    ∃ a, l = a ++ textFrom start offset l ∧ i = offset + Text.bytes a := by
  induction l generalizing offset with
  | nil => cases found
  | cons c cs ih =>
    rw [Text.charIndices, List.find?_cons] at found
    rw [textFrom]
    by_cases here : start ≤ offset
    · rw [decide_eq_true here] at found
      rw [if_pos here]
      exact ⟨[], rfl, (Option.some.inj found).symm⟩
    · rw [decide_eq_false here] at found
      rw [if_neg here]
      obtain ⟨a, whole, rfl⟩ := ih found
      refine ⟨c :: a, congrArg (List.cons c) whole, ?_⟩
      rw [Text.bytes_cons, Nat.add_assoc]

theorem textFrom_none {start offset : Nat} {l : List Char}
    (h : (Text.charIndices offset l).find? (fun index => decide (start ≤ index)) = none) :
    textFrom start offset l = [] := by
  induction l generalizing offset with
  | nil => rfl
  | cons c cs ih =>
    rw [Text.charIndices, List.find?_cons] at h
    rw [textFrom]
    by_cases here : start ≤ offset
    · rw [decide_eq_true here] at h
      cases h
    · rw [decide_eq_false here] at h
      rw [if_neg here]
      exact ih h

/-- The slice is never a panic, and gives what the model of a failure keeps. -/
theorem tryStderr_eq : f.tryStderr stderr = some (f.withStderr stderr) := by
  unfold tryStderr withStderr
  dsimp only
  split
  · rfl
  · split
    · rename_i long
      obtain ⟨a, b, parts, whole, -, -⟩ := keptFrom_splits long
      rw [parts]
      suffices same : textFrom ((Text.trim stderr).utf8ByteSize - stderrLimit) 0
          (Text.trim stderr).toList = b by rw [same]; rfl
      obtain ⟨-, size⟩ := Text.splitAtByte_eq_some.mp parts
      cases found : (Text.charIndices 0 (Text.trim stderr).toList).find?
          (fun index => decide ((Text.trim stderr).utf8ByteSize - stderrLimit ≤ index)) with
      | none =>
        rw [textFrom_none found]
        rw [keptFrom, found, Option.getD_none, ← Text.bytes_toList, whole,
          Text.bytes_append] at size
        by_contra more
        have := Text.bytes_pos fun no : b = [] => more no.symm
        omega
      | some i =>
        obtain ⟨a', same, here⟩ := textFrom_eq found
        rw [keptFrom, found, Option.getD_some, here, Nat.zero_add] at size
        have again := Text.splitAtByte_eq_some.mpr ⟨same, size.symm⟩
        rw [Text.splitAtByte_eq_some.mpr ⟨whole, rfl⟩] at again
        exact (congrArg Prod.snd (Option.some.inj again)).symm
    · rfl

/-- Keeping an error output never panics. A blank one leaves the failure as it is, one of at
most the limit is kept whole, and of a longer one the end is kept behind three dots. -/
theorem tryStderr_kept (f : Failure) (stderr : String) : ∃ g, f.tryStderr stderr = some g ∧
    (Blank stderr → g = f) ∧ (f.stderr = none → (g.stderr = none ↔ Blank stderr)) ∧
    (¬ Blank stderr → (Text.trim stderr).utf8ByteSize ≤ 4096 →
      g = { f with stderr := some (Text.trim stderr) }) ∧
    (4096 < (Text.trim stderr).utf8ByteSize → ∃ cut kept, Text.trim stderr = cut ++ kept ∧
      g = { f with stderr := some ("..." ++ kept) } ∧
      kept.utf8ByteSize ≤ 4096 ∧ 4092 < kept.utf8ByteSize) := by
  unfold tryStderr
  dsimp only
  split
  · rename_i nothing
    have blank := trim_empty.mp nothing
    refine ⟨f, rfl, fun _ => rfl, fun absent => ⟨fun _ => blank, fun _ => absent⟩,
      fun solid => absurd blank solid, fun long => ?_⟩
    rw [String.isEmpty_iff.mp nothing] at long
    cases long
  · rename_i some_
    have solid : ¬ Blank stderr := fun blank => some_ (trim_empty.mpr blank)
    split
    · rename_i long
      obtain ⟨a, b, parts, whole, fits, near⟩ := keptFrom_splits long
      have size : Text.bytes b = (String.ofList b).utf8ByteSize := by
        rw [← Text.bytes_toList, String.toList_ofList]
      rw [size] at fits near
      rw [parts]
      refine ⟨_, rfl, fun blank => absurd blank solid,
        fun _ => ⟨nofun, fun blank => absurd blank solid⟩,
        fun _ short => absurd short (Nat.not_le.mpr long), fun _ => ?_⟩
      refine ⟨String.ofList a, String.ofList b, ?_, rfl, fits, ?_⟩
      · rw [← String.ofList_append, ← whole, String.ofList_toList]
      · change 4092 + 4 < _ at near
        omega
    · rename_i short
      exact ⟨_, rfl, fun blank => absurd blank solid,
        fun _ => ⟨nofun, fun blank => absurd blank solid⟩, fun _ _ => rfl,
        fun long => absurd long short⟩

end CarbideOS.Agent.Failure
