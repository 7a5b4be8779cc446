import CarbideOS.Ops.Dispatch

namespace CarbideOS.Ops
open Broker

variable {s : String} {l : List Char}

/-- All of the text is a job identifier. -/
def IsJob (s : String) : Prop := Grep.matchesLine jobPattern s.toList = true

theorem matches_version : Grep.matchesLine versionPattern l = true ↔
    Agent.versionValid (String.ofList l) = true := by
  unfold versionPattern
  rw [Grep.matchesLine_times]
  simp only [Grep.matchesLine_star, Grep.matchesLine_nil, Agent.versionValid,
    String.toList_ofList, Bool.and_eq_true]
  constructor
  · rintro ⟨a, b, rfl, one, first, c, d, rfl, more, rfl⟩
    obtain ⟨x, rfl⟩ := List.length_eq_one_iff.mp one
    rw [List.append_nil]
    simp only [List.all_cons, List.all_nil, Bool.and_true] at first
    refine ⟨first, ?_⟩
    rw [List.cons_append, List.nil_append, List.all_cons, first]
    exact more
  · rintro ⟨first, all⟩
    cases l with
    | nil => cases first
    | cons x l =>
      rw [List.all_cons, Bool.and_eq_true] at all
      refine ⟨[x], l, rfl, rfl, ?_, l, [], (List.append_nil l).symm, all.2, rfl⟩
      simpa using first

theorem isLowerHex_alphanum {c : Char} (h : isLowerHex c = true) : c.isAlphanum = true := by
  simp only [isLowerHex, Bool.or_eq_true, Bool.and_eq_true, decide_eq_true_eq] at h
  rcases h with digit | ⟨first, last⟩
  · simp [Char.isAlphanum, digit]
  · have lower : c.isLower = true := by
      simp only [Char.isLower, Bool.and_eq_true, decide_eq_true_eq]
      exact ⟨first, le_trans last (by decide)⟩
    simp [Char.isAlphanum, Char.isAlpha, lower]

/-- A job identifier is a plain version too. -/
theorem matches_job (h : Grep.matchesLine jobPattern l = true) :
    Grep.matchesLine versionPattern l = true := by
  have all : ∀ c ∈ l, isVersionChar c = true := by
    refine Grep.matchesLine_all ?_ h
    intro piece there c within
    have cases_ : isLowerHex c = true ∨ c = '-' := by
      simp only [jobPattern, List.mem_cons, List.not_mem_nil, or_false] at there
      rcases there with rfl | rfl | rfl | rfl | rfl | rfl | rfl | rfl | rfl <;>
        simp_all [Grep.Piece.among]
    rcases cases_ with hex | rfl
    · simp [isVersionChar, isLowerHex_alphanum hex]
    · rfl
  obtain ⟨a, b, rfl, eight, hex, -⟩ := Grep.matchesLine_times.mp h
  rw [matches_version]
  cases a with
  | nil => cases eight
  | cons c a =>
    have first := isLowerHex_alphanum (List.all_eq_true.mp hex c List.mem_cons_self)
    simp only [Agent.versionValid, String.toList_ofList, Bool.and_eq_true, List.all_eq_true]
    exact ⟨by simpa using first, all⟩

/-- A plain version has no newlines. -/
theorem newline_notMem (h : Agent.versionValid s = true) : '\n' ∉ s.toList := by
  intro there
  rw [Agent.versionValid, Bool.and_eq_true] at h
  exact absurd (List.all_eq_true.mp h.2 _ there) (by decide)

theorem quiet_single (none_ : '\n' ∉ s.toList) (pattern : List Grep.Piece)
    (some_ : Grep.matchesLine pattern [] = false) :
    Grep.quiet pattern s = Grep.matchesLine pattern s.toList := by
  unfold Grep.quiet
  by_cases nothing : s.toList = []
  · rw [nothing, some_]
    rfl
  · rw [Grep.linesOf_single none_ nothing]
    simp

/-- The check of the shell is that of the agent, and a job is only what is one as a whole, for
texts without newlines and those of which no line is a plain version by itself. -/
theorem broker_checks_iff (s : String) :
    (versionValid s = Agent.versionValid s ∧ ((jobUnit s).isSome = true → IsJob s)) ↔
      ('\n' ∉ s.toList ∨
        ∀ line ∈ Grep.linesOf s.toList, Agent.versionValid (String.ofList line) = false) := by
  have job : (jobUnit s).isSome = Grep.quiet jobPattern s := by
    unfold jobUnit
    split <;> simp_all
  rw [job]
  constructor
  · rintro ⟨same, -⟩
    by_cases newline : '\n' ∈ s.toList
    · refine .inr fun line there => eq_false_of_ne_true fun plain => ?_
      have accepted : versionValid s = true :=
        List.any_eq_true.mpr ⟨line, there, matches_version.mpr plain⟩
      rw [same] at accepted
      exact newline_notMem accepted newline
    · exact .inl newline
  · rintro (single | none_)
    · refine ⟨?_, ?_⟩
      · have whole := matches_version (l := s.toList)
        rw [String.ofList_toList] at whole
        rw [versionValid, quiet_single single versionPattern rfl]
        exact Bool.eq_iff_iff.mpr whole
      · rw [quiet_single single jobPattern rfl]
        exact id
    · have refused : versionValid s = false := by
        refine eq_false_of_ne_true fun accepted => ?_
        obtain ⟨line, there, plain⟩ := List.any_eq_true.mp accepted
        exact absurd (matches_version.mp plain) (by simp [none_ line there])
      refine ⟨?_, fun accepted => ?_⟩
      · rw [refused]
        refine (eq_false_of_ne_true fun plain => ?_).symm
        have single := newline_notMem plain
        have whole := matches_version (l := s.toList)
        rw [String.ofList_toList] at whole
        have accepted : versionValid s = true := by
          rw [versionValid, quiet_single single versionPattern rfl]
          exact whole.mpr plain
        rw [refused] at accepted
        cases accepted
      · obtain ⟨line, there, plain⟩ := List.any_eq_true.mp accepted
        exact absurd (matches_version.mp (matches_job plain)) (by simp [none_ line there])

/-- Of two lines it is enough that one is a plain version, or a job identifier. -/
theorem second_line_accepted : versionValid "1\n/../x" = true ∧
    Agent.versionValid "1\n/../x" = false ∧
    jobUnit "00000000-0000-0000-0000-000000000000\n/x" =
      some "ace@00000000-0000-0000-0000-000000000000\n/x.service" ∧
    ¬ IsJob "00000000-0000-0000-0000-000000000000\n/x" := by
  refine ⟨by decide, by decide, ?_, ?_⟩
  · decide
  · unfold IsJob
    decide

end CarbideOS.Ops
