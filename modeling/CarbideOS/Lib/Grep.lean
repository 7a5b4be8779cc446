import Mathlib

namespace Grep

/-- A piece of a pattern: characters of a class, so many or any number of them. -/
inductive Piece where
  | times (n : Nat) (among : Char → Bool)
  | star (among : Char → Bool)

/-- The class of characters of a piece. -/
def Piece.among : Piece → Char → Bool
  | .times _ among | .star among => among

/-- Whether all of a line is as the pieces say. -/
def matchesLine : List Piece → List Char → Bool
  | [], l => l.isEmpty
  | .times n among :: rest, l =>
    decide (n ≤ l.length) && (l.take n).all among && matchesLine rest (l.drop n)
  | .star among :: rest, l => (List.range (l.length + 1)).any fun k =>
    (l.take k).all among && matchesLine rest (l.drop k)

/-- The lines of a text. What follows the last newline is one if there is anything. -/
def linesOf : List Char → List (List Char)
  | [] => []
  | c :: cs =>
    if c = '\n' then [] :: linesOf cs
    else
      match linesOf cs with
      | [] => [[c]]
      | l :: ls => (c :: l) :: ls

/-- Some line matches. -/
def quiet (pattern : List Piece) (text : String) : Bool :=
  (linesOf text.toList).any (matchesLine pattern)

variable {among : Char → Bool} {rest : List Piece} {l : List Char} {n : Nat}

@[simp] theorem matchesLine_nil : matchesLine [] l = true ↔ l = [] := by
  simp [matchesLine]

theorem matchesLine_times : matchesLine (.times n among :: rest) l = true ↔
    ∃ a b, l = a ++ b ∧ a.length = n ∧ a.all among = true ∧ matchesLine rest b = true := by
  simp only [matchesLine, Bool.and_eq_true, decide_eq_true_eq]
  constructor
  · rintro ⟨⟨long, all⟩, more⟩
    exact ⟨l.take n, l.drop n, (List.take_append_drop n l).symm,
      by rw [List.length_take, Nat.min_eq_left long], all, more⟩
  · rintro ⟨a, b, rfl, rfl, all, more⟩
    simp [all, more]

theorem matchesLine_star : matchesLine (.star among :: rest) l = true ↔
    ∃ a b, l = a ++ b ∧ a.all among = true ∧ matchesLine rest b = true := by
  simp only [matchesLine, List.any_eq_true, Bool.and_eq_true, List.mem_range]
  constructor
  · rintro ⟨k, -, all, more⟩
    exact ⟨l.take k, l.drop k, (List.take_append_drop k l).symm, all, more⟩
  · rintro ⟨a, b, rfl, all, more⟩
    refine ⟨a.length, by simp, ?_⟩
    simp [all, more]

/-- A line that matches has no characters but those of the classes. -/
theorem matchesLine_all {pattern : List Piece} {p : Char → Bool}
    (within : ∀ piece ∈ pattern, ∀ c, piece.among c = true → p c = true)
    (h : matchesLine pattern l = true) : ∀ c ∈ l, p c = true := by
  induction pattern generalizing l with
  | nil =>
    rw [matchesLine_nil.mp h]
    nofun
  | cons piece rest ih =>
    have parts : ∃ a b, l = a ++ b ∧ a.all piece.among = true ∧ matchesLine rest b = true := by
      cases piece with
      | times n among =>
        obtain ⟨a, b, whole, -, all, more⟩ := matchesLine_times.mp h
        exact ⟨a, b, whole, all, more⟩
      | star among => exact matchesLine_star.mp h
    obtain ⟨a, b, rfl, all, more⟩ := parts
    intro c there
    rcases List.mem_append.mp there with there | there
    · exact within piece List.mem_cons_self c (List.all_eq_true.mp all c there)
    · exact ih (fun q hq => within q (List.mem_cons_of_mem _ hq)) more c there

/-- A text without newlines is its own only line. -/
theorem linesOf_single (h : '\n' ∉ l) (some_ : l ≠ []) : linesOf l = [l] := by
  induction l with
  | nil => exact absurd rfl some_
  | cons c cs ih =>
    have other : c ≠ '\n' := fun same => h (same ▸ List.mem_cons_self)
    rw [linesOf, if_neg other]
    cases cs with
    | nil => rfl
    | cons d cs => rw [ih (fun there => h (List.mem_cons_of_mem _ there)) (List.cons_ne_nil _ _)]

end Grep
