import CarbideOS.Lib.Text

namespace OsRelease

/-- A character of a value, as it is or behind a backslash. -/
inductive Mark where
  | plain (c : Char)
  | escaped (c : Char)
  deriving DecidableEq, Repr

def Mark.char : Mark → Char
  | .plain c | .escaped c => c

def Mark.written : Mark → List Char
  | .plain c => [c]
  | .escaped c => ['\\', c]

inductive Quoting where
  | bare | single | double
  deriving DecidableEq, Repr

def Quoting.quote : Quoting → List Char
  | .bare => []
  | .single => ['\'']
  | .double => ['"']

def inLine (c : Char) : Bool := c != '\n' && c != '\r'

def isBlank (c : Char) : Bool := c == ' ' || c == '\t'

def isKeyChar (c : Char) : Bool := c.isAlphanum || c == '_'

/-- What may stand in a value. Blanks and quotes need quotes around them. -/
def Quoting.allows : Quoting → Mark → Bool
  | .bare, .plain c => !Text.isWhitespace c && c != '"' && c != '\'' && c != '\\'
  | .bare, .escaped c => inLine c
  | .single, .plain c => inLine c && c != '\''
  | .single, .escaped _ => false
  | .double, .plain c => inLine c && c != '"' && c != '\\'
  | .double, .escaped c => c == '"' || c == '\\' || c == '$' || c == '\x60'

/-- An assignment on a line of its own, with blanks before and after it. -/
structure Assignment where
  indent : List Char
  key : List Char
  quoting : Quoting
  value : List Mark
  tail : List Char
  blanks : (indent ++ tail).all isBlank = true
  named : key.all isKeyChar = true
  allowed : value.all quoting.allows = true

/-- The value that is assigned. -/
def Assignment.unquoted (a : Assignment) : List Char := a.value.map Mark.char

/-- Bare or in double quotes, and without backslashes. -/
def Assignment.isPlain (a : Assignment) : Bool :=
  a.quoting != .single && a.value.all fun m => decide (m = .plain m.char)

def Assignment.written (a : Assignment) : List Char :=
  a.indent ++ a.key ++ '=' :: (a.quoting.quote ++ a.value.flatMap Mark.written ++ a.quoting.quote ++
    a.tail)

/-- A line that assigns nothing: blanks, or a comment. -/
structure Remark where
  text : List Char
  inLine : text.all inLine = true
  silent : text.all isBlank = true ∨ text.head? = some '#'

inductive Line where
  | remark (r : Remark)
  | assign (a : Assignment)

def Line.written : Line → List Char
  | .remark r => r.text
  | .assign a => a.written

abbrev File := List Line

def File.assignments (file : File) : List Assignment :=
  file.filterMap fun
    | .assign a => some a
    | .remark _ => none

def File.text (file : File) : String := String.ofList (file.flatMap fun l => l.written ++ ['\n'])

/-- A text holds a file, with or without a newline at its end. -/
def File.Written (file : File) (contents : String) : Prop :=
  contents = file.text ∨ contents ++ "\n" = file.text

section
variable {a : Assignment} {l : Line} {c : Char}

theorem Mark.written_inLine {q : Quoting} {m : Mark} (h : q.allows m = true) :
    ∀ c ∈ m.written, inLine c = true := by
  have visible : ∀ c, Text.isWhitespace c = false → inLine c = true := by
    intro c hc
    by_contra no
    simp only [inLine, Bool.and_eq_true, bne_iff_ne, not_and_or, not_not] at no
    rcases no with rfl | rfl
    · exact absurd hc (by decide)
    · exact absurd hc (by decide)
  have marked : ∀ c,
      (c == '"' || c == '\\' || c == '$' || c == '\x60') = true → inLine c = true := by
    intro c hc
    simp only [Bool.or_eq_true, beq_iff_eq] at hc
    rcases hc with ((rfl | rfl) | rfl) | rfl <;> decide
  intro c hc
  cases m with
  | plain d =>
    obtain rfl : c = d := by simpa [Mark.written] using hc
    cases q <;> simp only [Quoting.allows, Bool.and_eq_true, Bool.not_eq_true'] at h
    · exact visible c h.1.1.1
    · exact h.1
    · exact h.1.1
  | escaped d =>
    have some : c = '\\' ∨ c = d := by simpa [Mark.written] using hc
    rcases some with rfl | rfl
    · decide
    · cases q
      · exact h
      · cases h
      · exact marked c h

theorem written_inLine : ∀ c ∈ l.written, inLine c = true := by
  intro c hc
  cases l with
  | remark r => exact List.all_eq_true.mp r.inLine c hc
  | assign a =>
    have blank : ∀ c, isBlank c = true → inLine c = true := by
      intro c hc
      simp only [isBlank, Bool.or_eq_true, beq_iff_eq] at hc
      rcases hc with rfl | rfl <;> decide
    have key : ∀ c, isKeyChar c = true → inLine c = true := by
      intro c hc
      by_contra no
      simp only [inLine, Bool.and_eq_true, bne_iff_ne, not_and_or, not_not] at no
      rcases no with rfl | rfl
      · exact absurd hc (by decide)
      · exact absurd hc (by decide)
    have quote : ∀ c ∈ a.quoting.quote, inLine c = true := by
      cases a.quoting <;> simp [Quoting.quote, inLine]
    have blanks := List.all_eq_true.mp a.blanks
    change c ∈ a.written at hc
    simp only [Assignment.written, List.mem_append, List.mem_cons, List.mem_flatMap] at hc blanks
    rcases hc with (hc | hc) | rfl | ((hc | ⟨m, hm, hc⟩) | hc) | hc
    · exact blank c (blanks c (.inl hc))
    · exact key c (List.all_eq_true.mp a.named c hc)
    · decide
    · exact quote c hc
    · exact Mark.written_inLine (List.all_eq_true.mp a.allowed m hm) c hc
    · exact quote c hc
    · exact blank c (blanks c (.inr hc))

theorem written_unbroken : ∀ c ∈ l.written, c ≠ '\n' ∧ c ≠ '\r' := by
  intro c hc
  simpa [inLine] using written_inLine c hc

/-- A value without backslashes is written as it is. -/
theorem written_of_plain {value : List Mark} (h : ∀ m ∈ value, m = .plain m.char) :
    value.flatMap Mark.written = value.map Mark.char := by
  induction value with
  | nil => rfl
  | cons m value ih =>
    rw [List.flatMap_cons, List.map_cons, ih fun d hd => h d (List.mem_cons_of_mem _ hd),
      h m List.mem_cons_self]
    rfl

/-- Any other assignment has a single quote or a backslash in it. -/
theorem marked_of_not_plain (h : a.isPlain = false) :
    '\'' ∈ a.quoting.quote ∨ '\\' ∈ a.value.flatMap Mark.written := by
  simp only [Assignment.isPlain, Bool.and_eq_false_iff, bne_eq_false_iff_eq, List.all_eq_false,
    decide_eq_true_eq] at h
  rcases h with single | ⟨m, hm, marked⟩
  · left
    rw [single]
    exact List.mem_singleton_self _
  · right
    refine List.mem_flatMap.mpr ⟨m, hm, ?_⟩
    cases m with
    | plain c => exact absurd rfl marked
    | escaped c => exact List.mem_cons_self

/-- What is looked for in the lines of a file is looked for in its lines as written. -/
theorem findSome?_lines {β : Type} {f : String → Option β} (blank : f "" = none) {file : File}
    {contents : String} (h : file.Written contents) :
    (Text.lines contents).findSome? f = file.findSome? fun l => f (String.ofList l.written) := by
  have each : ∀ (file : File) (cs : List Char), cs = file.flatMap (fun l => l.written ++ ['\n']) ∨
      cs ++ ['\n'] = file.flatMap (fun l => l.written ++ ['\n']) →
        ((Text.linesOf cs).map String.ofList).findSome? f =
          file.findSome? fun l => f (String.ofList l.written) := by
    intro file
    induction file with
    | nil =>
      rintro cs (rfl | no)
      · rfl
      · simp at no
    | cons l file ih =>
      rintro cs (rfl | same)
      · rw [List.flatMap_cons, List.append_assoc, List.singleton_append,
          Text.linesOf_line written_unbroken, List.map_cons, List.findSome?_cons,
            List.findSome?_cons,
          ih _ (.inl rfl)]
      · rcases List.eq_nil_or_concat file with rfl | ⟨before, last, rfl⟩
        · obtain rfl : cs = l.written := by simpa using same
          by_cases empty : l.written = []
          · simp [empty, Text.linesOf, blank]
          · simp [Text.linesOf_last written_unbroken empty]
        · obtain ⟨ds, rfl, rest⟩ : ∃ ds, cs = l.written ++ '\n' :: ds ∧
              ds ++ ['\n'] = (before.concat last).flatMap fun l => l.written ++ ['\n'] := by
            refine ⟨(before.flatMap fun l => l.written ++ ['\n']) ++ last.written, ?_, by simp⟩
            have whole : cs ++ ['\n'] = (l.written ++ '\n' ::
                ((before.flatMap fun l => l.written ++ ['\n']) ++ last.written)) ++ ['\n'] := by
              rw [same]
              simp
            exact List.append_cancel_right whole
          rw [Text.linesOf_line written_unbroken, List.map_cons, List.findSome?_cons,
            List.findSome?_cons, ih ds (.inr rest)]
  refine each file contents.toList ?_
  rcases h with rfl | h
  · left
    simp [File.text]
  · right
    have h := congrArg String.toList h
    simpa [File.text] using h

end
end OsRelease
