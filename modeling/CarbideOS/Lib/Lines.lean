import CarbideOS.Lib.Text

namespace Text

/-- A line as it is read: without a carriage return at its end. -/
def chomp (l : List Char) : List Char := if l.getLast? = some '\r' then l.dropLast else l

def unlines (lines : List (List Char)) : List Char := lines.flatMap (· ++ ['\n'])

variable {l rest : List Char} {c : Char}

theorem linesOf_other (newline : c ≠ '\n') (pair : ¬(c = '\r' ∧ ∃ cs, l = '\n' :: cs)) :
    linesOf (c :: l) = match linesOf l with
      | [] => [[c]]
      | first :: others => (c :: first) :: others :=
  linesOf.eq_4 c l (fun no => newline no) fun cs no here => pair ⟨no, cs, here⟩

theorem chomp_cons (some_ : l ≠ []) : chomp (c :: l) = c :: chomp l := by
  unfold chomp
  rw [List.getLast?_cons_of_ne_nil some_]
  split
  · rw [List.dropLast_cons_of_ne_nil some_]
  · rfl

theorem linesOf_newline (h : '\n' ∉ l) (rest : List Char) :
    linesOf (l ++ '\n' :: rest) = chomp l :: linesOf rest := by
  induction l with
  | nil => rfl
  | cons c l ih =>
    rw [List.mem_cons, not_or] at h
    have newline : c ≠ '\n' := Ne.symm h.1
    cases l with
    | nil =>
      by_cases cr : c = '\r'
      · subst cr
        rfl
      · rw [List.cons_append, linesOf_other newline (fun no => cr no.1), List.nil_append, linesOf]
        simp [chomp, cr]
    | cons d l =>
      have other : d ≠ '\n' := fun same => h.2 (same ▸ List.mem_cons_self)
      rw [List.cons_append, linesOf_other newline, ih h.2, chomp_cons (List.cons_ne_nil _ _)]
      rintro ⟨-, cs, same⟩
      exact other (List.cons.inj same).1

/-- The lines that were written are read, but for carriage returns at their ends. -/
theorem linesOf_unlines {lines : List (List Char)} (h : ∀ line ∈ lines, '\n' ∉ line) :
    linesOf (unlines lines) = lines.map chomp := by
  induction lines with
  | nil => rfl
  | cons line lines ih =>
    rw [List.forall_mem_cons] at h
    have split : unlines (line :: lines) = line ++ '\n' :: unlines lines := by simp [unlines]
    rw [split, linesOf_newline h.1, ih h.2, List.map_cons]

theorem chomp_eq_iff : chomp l = l ↔ l.getLast? ≠ some '\r' := by
  unfold chomp
  split
  · rename_i cr
    refine iff_of_false (fun same => ?_) (fun no => no cr)
    have shorter := congrArg List.length same
    have some_ : l ≠ [] := by
      rintro rfl
      cases cr
    have := List.length_pos_iff.mpr some_
    rw [List.length_dropLast] at shorter
    omega
  · rename_i no
    exact iff_of_true rfl no

end Text
