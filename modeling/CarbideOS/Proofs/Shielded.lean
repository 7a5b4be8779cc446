import CarbideOS.Ops.Rm

namespace CarbideOS.Ops.Guard

variable {realpath : String → Option String} {args operands : List String} {path arg : String}

/-- A path that must not be removed. -/
def Protected (path : String) : Prop :=
  path = "/" ∨ ∃ p ∈ ["/boot", "/efi", "/etc", "/usr"], path = p ∨ ∃ rest, path = p ++ "/" ++ rest

/-- The guard stops at an argument. -/
def Stops (realpath : String → Option String) (arg : String) : Prop :=
  ∀ path, realpath arg = some path → isProtected (substituted (path ++ "\n")) = true

/-- The arguments that the guard resolves. -/
def checked (args : List String) : List String :=
  (Getopt.before args).filter (fun arg => !Text.startsWith arg "-") ++ Getopt.behind args

/-- An argument that is resolved is passed over unless it stops the guard. -/
theorem resolve_passed {next : Outcome} : resolve realpath arg next = .passed ↔
    ¬ Stops realpath arg ∧ next = .passed := by
  unfold resolve
  cases found : realpath arg with
  | none => simp [Stops, found]
  | some path =>
    have stops : Stops realpath arg ↔ isProtected (substituted (path ++ "\n")) = true := by
      simp [Stops, found]
    rw [stops]
    dsimp only
    split
    · rename_i refused
      exact ⟨nofun, fun h => absurd refused h.1⟩
    · rename_i fine
      exact ⟨fun h => ⟨fine, h⟩, fun h => h.2⟩

theorem check_behind : check realpath false args = .passed ↔ ∀ arg ∈ args,
    ¬ Stops realpath arg := by
  induction args with
  | nil => simp [check]
  | cons arg rest ih =>
    simp only [check, Bool.false_and, Bool.false_eq_true, if_false, List.forall_mem_cons]
    rw [resolve_passed, ih]

theorem check_passed : check realpath true args = .passed ↔
    ∀ arg ∈ checked args, ¬ Stops realpath arg := by
  unfold checked
  induction args with
  | nil => simp [check, Getopt.before, Getopt.behind]
  | cons arg rest ih =>
    simp only [check, Bool.true_and, beq_iff_eq, Getopt.before, Getopt.behind]
    by_cases dashes : arg = "--"
    · rw [if_pos dashes, if_pos dashes, if_pos dashes]
      exact check_behind
    · rw [if_neg dashes, if_neg dashes, if_neg dashes, List.filter_cons]
      by_cases dash : Text.startsWith arg "-" = true
      · rw [if_pos dash, if_neg (by simp [dash]), ih]
      · rw [if_neg dash, if_pos (by simp [dash]), resolve_passed, ih, List.cons_append,
          List.forall_mem_cons]

theorem rdropWhile_append_neg {p : Char → Bool} (l m : List Char) {c : Char} (h : p c = false) :
    (l ++ c :: m).rdropWhile p = l ++ c :: m.rdropWhile p := by
  have stays : (c :: l.reverse).dropWhile p = c :: l.reverse :=
    List.dropWhile_cons_of_neg (by simp [h])
  have back : (l ++ c :: m).reverse = m.reverse ++ c :: l.reverse := by simp
  rw [List.rdropWhile, back, List.dropWhile_append, stays, List.rdropWhile]
  split
  · rename_i gone
    simp [List.isEmpty_iff.mp gone]
  · simp

/-- What a substitution drops ends before a slash. -/
theorem substituted_below (p rest : String) :
    ∃ kept, substituted (p ++ "/" ++ rest ++ "\n") = p ++ "/" ++ kept := by
  refine ⟨String.ofList ((rest ++ "\n").toList.rdropWhile (· == '\n')), ?_⟩
  apply String.toList_inj.mp
  have parts : (p ++ "/" ++ rest ++ "\n").toList = p.toList ++ '/' :: (rest ++ "\n").toList := by
    simp
  rw [substituted, String.toList_ofList, parts, rdropWhile_append_neg _ _ (by decide)]
  simp

theorem substituted_whole (p : String) (solid : '\n' ∉ p.toList) :
    substituted (p ++ "\n") = p := by
  have line : (p ++ "\n").toList = p.toList ++ ['\n'] := by simp
  have stays : p.toList.rdropWhile (· == '\n') = p.toList := by
    rw [List.rdropWhile_eq_self_iff]
    intro some_ last
    rw [beq_iff_eq] at last
    exact solid (last ▸ List.getLast_mem some_)
  rw [substituted, line, List.rdropWhile_concat_pos _ _ _ rfl, stays, String.ofList_toList]

/-- What must not be removed is recognised, whatever newlines a substitution drops. -/
theorem isProtected_of (h : Protected path) : isProtected (substituted (path ++ "\n")) = true := by
  rcases h with rfl | ⟨p, there, below⟩
  · decide
  · have solid : '\n' ∉ p.toList := by
      simp only [List.mem_cons, List.not_mem_nil, or_false] at there
      rcases there with rfl | rfl | rfl | rfl <;> decide
    have listed : p ∈ protectedPaths ∧ (p != "/") = true := by
      simp only [List.mem_cons, List.not_mem_nil, or_false] at there
      rcases there with rfl | rfl | rfl | rfl <;> decide
    refine List.any_eq_true.mpr ⟨p, listed.1, ?_⟩
    rcases below with rfl | ⟨rest, rfl⟩
    · rw [substituted_whole path solid]
      simp
    · obtain ⟨kept, same⟩ := substituted_below p rest
      rw [same, listed.2]
      have cut : Shell.withoutPrefix (p ++ "/" ++ kept) (p ++ "/") = kept := by
        simp [Shell.withoutPrefix, Text.stripPrefix_eq_some.mpr rfl]
      rw [cut]
      have longer : kept ≠ p ++ "/" ++ kept := by
        intro no
        have size := congrArg (fun s => s.toList.length) no
        simp at size
        omega
      simp [longer]

theorem recursive_of {flagged : String} (there : flagged ∈ Getopt.before args)
    (h : dashWith 'r' flagged = true ∨ dashWith 'R' flagged = true) : recursive args = true := by
  induction args with
  | nil => cases there
  | cons arg rest ih =>
    rw [Getopt.before] at there
    rw [recursive]
    split at there
    · cases there
    · rename_i dashes
      rw [if_neg dashes]
      split
      · rfl
      · rename_i other
        rcases List.mem_cons.mp there with rfl | later
        · exact absurd (.inr h) other
        · exact ih later

theorem dashWith_of {c : Char} (dash : Text.startsWith arg "-" = true)
    (held : c ∈ arg.toList.drop 1) : dashWith c arg = true := by
  rw [dashWith, dash, Bool.true_and]
  exact List.contains_iff_mem.mpr held

/-- The guard takes every option that makes `rm` recursive for one. -/
theorem recursive_of_recursively (h : Rm.recursively args = some operands) :
    recursive args = true := by
  unfold Rm.recursively at h
  split at h
  · rename_i flags parsed found
    split at h
    · rename_i goes
      rw [Bool.and_eq_true, List.any_eq_true] at goes
      obtain ⟨-, flag, there, isrecursive⟩ := goes
      obtain ⟨arg, place, isflag, here, read, listed⟩ := Getopt.parse_flags found there
      rw [Getopt.isFlag, Bool.and_eq_true] at isflag
      apply recursive_of place
      cases flag with
      | short letter =>
        have held := Getopt.read_short read listed
        simp only [Rm.isRecursive, Bool.or_eq_true, beq_iff_eq] at isrecursive
        rcases isrecursive with rfl | rfl
        · exact .inl (dashWith_of isflag.1 held)
        · exact .inr (dashWith_of isflag.1 held)
      | long name spelled value =>
        obtain ⟨text, valued, rfl, named, start⟩ := Getopt.read_long read listed
        obtain rfl : name = "recursive" := by simpa [Rm.isRecursive] using isrecursive
        have cut := Text.startsWith_iff.mp (Getopt.named_start named)
        have first : 'r' ∈ spelled.toList := by
          cases letters : spelled.toList with
          | nil =>
            obtain rfl : spelled = "" := String.toList_inj.mp letters
            have none_ : Rm.options.named "" = none := by decide
            rw [none_] at named
            cases named
          | cons c more =>
            rw [letters] at cut
            exact List.mem_cons.mpr (.inl (List.cons_prefix_cons.mp cut).1.symm)
        have held : 'r' ∈ text.toList := start.subset first
        exact .inl (dashWith_of isflag.1 (by simp [held]))
    · cases h
  · cases h

/-- What `rm` removes is resolved by the guard, but for lone dashes. -/
theorem operand_cases (h : Rm.recursively args = some operands) {operand : String}
    (there : operand ∈ operands) :
    operand ∈ checked args ∨ operand = "-" ∧ "-" ∈ Getopt.before args := by
  have whole : operands =
      (Getopt.before args).filter (fun arg => !Getopt.isFlag arg) ++ Getopt.behind args := by
    unfold Rm.recursively at h
    split at h
    · rename_i found
      split at h
      · cases h
        exact Getopt.parse_operands found
      · cases h
    · cases h
  rw [whole] at there
  rcases List.mem_append.mp there with before | behind
  · obtain ⟨place, noflag⟩ := List.mem_filter.mp before
    by_cases dash : operand = "-"
    · exact .inr ⟨dash, dash ▸ place⟩
    · refine .inl (List.mem_append_left _ (List.mem_filter.mpr ⟨place, ?_⟩))
      simpa [Getopt.isFlag, dash] using noflag
  · exact .inl (List.mem_append_right _ behind)

theorem dash_operand (h : Rm.recursively args = some operands) (there : "-" ∈ Getopt.before args) :
    "-" ∈ operands := by
  unfold Rm.recursively at h
  split at h
  · rename_i found
    split at h
    · cases h
      rw [Getopt.parse_operands found]
      exact List.mem_append_left _ (List.mem_filter.mpr ⟨there, by decide⟩)
    · cases h
  · cases h

theorem run_passed (h : Rm.recursively args = some operands) :
    run realpath args = .passed ↔ ∀ arg ∈ checked args, ¬ Stops realpath arg := by
  rw [run, if_pos (recursive_of_recursively h), check_passed]

/-- A recursive removal of what is protected is refused, unless the only operands of that kind
are lone dashes in front of the two dashes. -/
theorem guard_covers_iff (realpath : String → Option String) (args : List String) :
    (∀ operands, Rm.recursively args = some operands →
      (∃ operand ∈ operands, ∃ path, realpath operand = some path ∧ Protected path) →
      run realpath args ≠ .passed) ↔
    ((Rm.recursively args).isSome → "-" ∈ Getopt.before args →
      (∃ path, realpath "-" = some path ∧ Protected path) →
      ∃ arg ∈ checked args, Stops realpath arg) := by
  constructor
  · intro covers goes dash below
    obtain ⟨operands, h⟩ := Option.isSome_iff_exists.mp goes
    by_contra none_
    refine covers operands h ⟨"-", dash_operand h dash, below⟩ ((run_passed h).mpr ?_)
    exact fun arg there stops => none_ ⟨arg, there, stops⟩
  · rintro dashes operands h ⟨operand, there, path, resolved, below⟩ passed
    have open_ := (run_passed h).mp passed
    rcases operand_cases h there with place | ⟨rfl, place⟩
    · refine open_ operand place fun path' same => ?_
      obtain rfl := Option.some.inj (resolved.symm.trans same)
      exact isProtected_of below
    · obtain ⟨arg, place, stops⟩ := dashes (by rw [h]; rfl) place ⟨path, resolved, below⟩
      exact open_ arg place stops

/-- A file of the name of a dash, in a protected directory. -/
theorem dash_unguarded : Rm.recursively ["-r", "-"] = some ["-"] ∧ Protected "/etc/-" ∧
    run (fun arg => if arg = "-" then some "/etc/-" else none) ["-r", "-"] = .passed :=
  ⟨by decide, .inr ⟨"/etc", by decide, .inr ⟨"-", rfl⟩⟩, by decide⟩

end CarbideOS.Ops.Guard
