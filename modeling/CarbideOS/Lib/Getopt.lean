import CarbideOS.Lib.Text

namespace Getopt

/-! Command lines whose options and operands are permuted. A lone dash is an operand, and
behind two dashes everything is one. -/

structure Options where
  /-- The letters, none of them with a value. -/
  short : List Char
  /-- The long names, and whether one may have a value. -/
  long : List (String × Bool)

inductive Flag where
  | short (letter : Char)
  /-- A long option, as it was spelled, with its value. -/
  | long (name spelled : String) (value : Option String)
  deriving DecidableEq, Repr

def isFlag (arg : String) : Bool := Text.startsWith arg "-" && arg != "-"

/-- The long option that is spelled so: the one of that name, or else the only one whose name
starts so. -/
def Options.named (o : Options) (spelled : String) : Option (String × Bool) :=
  match o.long.find? fun l => l.1 == spelled with
  | some l => some l
  | none =>
    match o.long.filter fun l => Text.startsWith l.1 spelled with
    | [l] => some l
    | _ => none

def Options.readLong (o : Options) (text : String) : Option (List Flag) :=
  let (spelled, value) :=
    match Text.splitOnce text '=' with
    | some (spelled, value) => (spelled, some value)
    | none => (text, none)
  match o.named spelled with
  | some (name, valued) =>
    if value.isSome && !valued then none else some [.long name spelled value]
  | none => none

/-- What an argument in front of the dashes asks for. -/
def Options.read (o : Options) (arg : String) : Option (List Flag) :=
  match Text.stripPrefix arg "--" with
  | some text => o.readLong text
  | none =>
    let letters := arg.toList.drop 1
    if letters.all (o.short.contains ·) then some (letters.map Flag.short) else none

/-- The options and the operands, unless the options are not understood. -/
def Options.parse (o : Options) : List String → Option (List Flag × List String)
  | [] => some ([], [])
  | arg :: rest =>
    if arg = "--" then some ([], rest)
    else if isFlag arg then do
      let flags ← o.read arg
      let (more, operands) ← o.parse rest
      pure (flags ++ more, operands)
    else do
      let (flags, operands) ← o.parse rest
      pure (flags, arg :: operands)

/-- The arguments in front of the dashes, and those behind them. -/
def before : List String → List String
  | [] => []
  | arg :: rest => if arg = "--" then [] else arg :: before rest

def behind : List String → List String
  | [] => []
  | arg :: rest => if arg = "--" then rest else behind rest

variable {o : Options} {args operands : List String} {flags : List Flag}

/-- The operands are the arguments that are no options, and all that are behind the dashes. -/
theorem parse_operands (h : o.parse args = some (flags, operands)) :
    operands = (before args).filter (fun arg => !isFlag arg) ++ behind args := by
  induction args generalizing flags operands with
  | nil =>
    cases h
    rfl
  | cons arg rest ih =>
    rw [Options.parse] at h
    rw [before, behind]
    split at h
    · rename_i dashes
      cases h
      rw [if_pos dashes, if_pos dashes]
      rfl
    · rename_i dashes
      rw [if_neg dashes, if_neg dashes]
      split at h
      · rename_i flag
        simp only [Option.bind_eq_bind, Option.bind_eq_some_iff, Option.pure_def] at h
        obtain ⟨here, -, more, parsed, same⟩ := h
        cases same
        rw [List.filter_cons, if_neg (by simp [flag]), ih parsed]
      · rename_i flag
        simp only [Option.bind_eq_bind, Option.bind_eq_some_iff, Option.pure_def] at h
        obtain ⟨more, parsed, same⟩ := h
        cases same
        rw [List.filter_cons, if_pos (by simp [flag]), ih parsed, List.cons_append]

/-- An option comes from an argument in front of the dashes. -/
theorem parse_flags (h : o.parse args = some (flags, operands)) {flag : Flag}
    (there : flag ∈ flags) : ∃ arg ∈ before args, isFlag arg = true ∧
      ∃ here, o.read arg = some here ∧ flag ∈ here := by
  induction args generalizing flags operands with
  | nil =>
    cases h
    cases there
  | cons arg rest ih =>
    rw [Options.parse] at h
    rw [before]
    split at h
    · cases h
      cases there
    · rename_i dashes
      rw [if_neg dashes]
      split at h
      · rename_i isflag
        simp only [Option.bind_eq_bind, Option.bind_eq_some_iff, Option.pure_def] at h
        obtain ⟨here, read, more, parsed, same⟩ := h
        cases same
        rcases List.mem_append.mp there with first | later
        · exact ⟨arg, List.mem_cons_self, isflag, here, read, first⟩
        · obtain ⟨a, ha, found⟩ := ih parsed later
          exact ⟨a, List.mem_cons_of_mem _ ha, found⟩
      · simp only [Option.bind_eq_bind, Option.bind_eq_some_iff, Option.pure_def] at h
        obtain ⟨more, parsed, same⟩ := h
        cases same
        obtain ⟨a, ha, found⟩ := ih parsed there
        exact ⟨a, List.mem_cons_of_mem _ ha, found⟩

theorem readLong_eq_some {text : String} {here : List Flag} (h : o.readLong text = some here) :
    ∃ name spelled value valued, here = [.long name spelled value] ∧
      o.named spelled = some (name, valued) ∧ spelled.toList <+: text.toList := by
  have found : ∀ spelled value, (match o.named spelled with
      | some (name, valued) =>
        if (value : Option String).isSome && !valued then none
        else some [Flag.long name spelled value]
      | none => none) = some here →
      ∃ name value valued, here = [.long name spelled value] ∧
        o.named spelled = some (name, valued) := by
    intro spelled value h
    split at h
    · rename_i name valued named
      split at h
      · cases h
      · cases h
        exact ⟨name, value, valued, rfl, named⟩
    · cases h
  unfold Options.readLong at h
  cases split : Text.splitOnce text '=' with
  | none =>
    rw [split] at h
    obtain ⟨name, value, valued, same, named⟩ := found text none h
    exact ⟨name, text, value, valued, same, named, List.prefix_refl _⟩
  | some parts =>
    rw [split] at h
    obtain ⟨name, value, valued, same, named⟩ := found parts.1 (some parts.2) h
    refine ⟨name, parts.1, value, valued, same, named, ?_⟩
    unfold Text.splitOnce at split
    dsimp only at split
    split at split
    · cases split
      rw [String.toList_ofList]
      exact List.takeWhile_prefix _
    · cases split

/-- A letter is asked for by an argument that holds it. -/
theorem read_short {arg : String} {here : List Flag} {letter : Char}
    (h : o.read arg = some here) (there : Flag.short letter ∈ here) :
    letter ∈ arg.toList.drop 1 := by
  unfold Options.read at h
  split at h
  · obtain ⟨name, spelled, value, valued, rfl, -, -⟩ := readLong_eq_some h
    simp at there
  · dsimp only at h
    split at h
    · cases h
      obtain ⟨c, hc, same⟩ := List.mem_map.mp there
      cases same
      exact hc
    · cases h

/-- A long option is asked for by an argument of two dashes and what is resolved to its name. -/
theorem read_long {arg name spelled : String} {value : Option String} {here : List Flag}
    (h : o.read arg = some here) (there : Flag.long name spelled value ∈ here) :
    ∃ text valued, arg = "--" ++ text ∧ o.named spelled = some (name, valued) ∧
      spelled.toList <+: text.toList := by
  unfold Options.read at h
  split at h
  · rename_i text dashes
    obtain ⟨name', spelled', value', valued, rfl, named, start⟩ := readLong_eq_some h
    cases List.mem_singleton.mp there
    exact ⟨text, valued, Text.stripPrefix_eq_some.mp dashes, named, start⟩
  · dsimp only at h
    split at h
    · cases h
      obtain ⟨c, -, same⟩ := List.mem_map.mp there
      cases same
    · cases h

/-- A long option is spelled as a start of its name. -/
theorem named_start {name spelled : String} {valued : Bool}
    (h : o.named spelled = some (name, valued)) : Text.startsWith name spelled = true := by
  unfold Options.named at h
  split at h
  · rename_i l found
    cases h
    have same := List.find?_some found
    rw [beq_iff_eq] at same
    rw [Text.startsWith_iff, ← same]
  · split at h
    · rename_i l only
      cases h
      have there : (name, valued) ∈ o.long.filter fun l => Text.startsWith l.1 spelled := by
        rw [only]
        exact List.mem_singleton.mpr rfl
      exact (List.mem_filter.mp there).2
    · cases h

end Getopt
