import CarbideOS.Lib.Json

namespace Json

/-- The blanks in front of an item or a closing bracket, by its depth, and behind a colon. -/
structure Layout where
  line : Nat → List Char
  gap : List Char
  line_blank : ∀ depth, ∀ c ∈ line depth, isBlank c = true
  gap_blank : ∀ c ∈ gap, isBlank c = true

mutual

/-- The text of a value at a depth. -/
def Layout.print (y : Layout) (depth : Nat) : Value → List Char
  | .null => ['n', 'u', 'l', 'l']
  | .bool true => ['t', 'r', 'u', 'e']
  | .bool false => ['f', 'a', 'l', 's', 'e']
  | .number n => n.literal
  | .string s => quoted s.toList
  | .array [] => ['[', ']']
  | .array (v :: items) =>
    '[' :: (y.line (depth + 1) ++ y.print (depth + 1) v) ++ y.printItems depth items
  | .object [] => ['{', '}']
  | .object ((key, v) :: members) =>
    '{' :: (y.line (depth + 1) ++ quoted key.toList ++ ':' :: (y.gap ++ y.print (depth + 1) v)) ++
      y.printMembers depth members

/-- The rest of an array behind an item. -/
def Layout.printItems (y : Layout) (depth : Nat) : List Value → List Char
  | [] => y.line depth ++ [']']
  | v :: items =>
    ',' :: (y.line (depth + 1) ++ y.print (depth + 1) v) ++ y.printItems depth items

/-- The rest of an object behind a member. -/
def Layout.printMembers (y : Layout) (depth : Nat) : List (String × Value) → List Char
  | [] => y.line depth ++ ['}']
  | (key, v) :: members =>
    ',' :: (y.line (depth + 1) ++ quoted key.toList ++ ':' :: (y.gap ++ y.print (depth + 1) v)) ++
      y.printMembers depth members

end

/-- A line for each item, two columns further in than the brackets around it. -/
def indented : Layout where
  line depth := '\n' :: List.replicate (2 * depth) ' '
  gap := [' ']
  line_blank := by
    intro depth c member
    rcases List.mem_cons.mp member with rfl | member
    · rfl
    · rw [List.eq_of_mem_replicate member]
      rfl
  gap_blank := by
    intro c member
    rw [List.mem_singleton.mp member]
    rfl

/-- The text of a value over several lines. -/
def pretty (v : Value) : List Char := indented.print 0 v

section
variable {y : Layout} {v : Value} {l rest b : List Char} {c : Char} {fuel depth : Nat}

theorem skip_append (blank : ∀ c ∈ b, isBlank c = true) : skip (b ++ l) = skip l := by
  rw [skip, skip, List.dropWhile_append_of_pos blank]

theorem readValue_append (blank : ∀ c ∈ b, isBlank c = true) :
    readValue fuel (b ++ l) = readValue fuel l := by
  cases fuel with
  | zero => rfl
  | succ fuel => rw [readValue, readValue, skip_append blank]

theorem readItems_append (blank : ∀ c ∈ b, isBlank c = true) :
    readItems fuel (b ++ l) = readItems fuel l := by
  cases fuel with
  | zero => rfl
  | succ fuel => rw [readItems, readItems, readValue_append blank]

theorem readMembers_append (blank : ∀ c ∈ b, isBlank c = true) :
    readMembers fuel (b ++ l) = readMembers fuel l := by
  cases fuel with
  | zero => rfl
  | succ fuel => rw [readMembers, readMembers, skip_append blank]

/-- Behind blanks as well, what follows a value does not go on a number. -/
theorem Ends.append (blank : ∀ c ∈ b, isBlank c = true) (ends : Ends l) : Ends (b ++ l) := by
  cases b with
  | nil => exact ends
  | cons c b =>
    refine ends_cons ?_
    have := blank c List.mem_cons_self
    simp only [isBlank, Bool.or_eq_true, beq_iff_eq] at this
    rcases this with ((rfl | rfl) | rfl) | rfl <;> rfl

theorem Layout.print_head (y : Layout) (depth : Nat) (v : Value) :
    ∃ c l, y.print depth v = c :: l ∧ isBlank c = false ∧ c ≠ ']' ∧ c ≠ '}' := by
  cases v with
  | null => exact ⟨_, _, rfl, by decide⟩
  | bool b => cases b <;> exact ⟨_, _, rfl, by decide⟩
  | number n =>
    obtain ⟨c, l, text, plain⟩ := Json.print_head (.number n)
    exact ⟨c, l, text, plain⟩
  | string s => exact ⟨_, _, rfl, by decide⟩
  | array items => cases items <;> exact ⟨_, _, rfl, by decide⟩
  | object members => cases members <;> exact ⟨_, _, rfl, by decide⟩

/-- The text of a value is read as the value at any depth, with enough fuel for its length. -/
def Layout.Reads (y : Layout) (v : Value) : Prop :=
  ∀ depth fuel rest, (y.print depth v).length ≤ fuel → Ends rest →
    readValue fuel (y.print depth v ++ rest) = some (v, rest)

theorem Layout.print_pos (y : Layout) (depth : Nat) (v : Value) :
    0 < (y.print depth v).length := by
  obtain ⟨c, l, text, -⟩ := y.print_head depth v
  rw [text]
  exact Nat.succ_pos _

theorem Layout.Reads.of_succ (h : ∀ depth fuel rest, (y.print depth v).length ≤ fuel + 1 →
    Ends rest → readValue (fuel + 1) (y.print depth v ++ rest) = some (v, rest)) : y.Reads v := by
  intro depth fuel rest enough ends
  cases fuel with
  | zero => exact absurd enough (Nat.not_le_of_lt (y.print_pos depth v))
  | succ fuel => exact h depth fuel rest enough ends

/-- What is read the same in every layout. -/
theorem Layout.Reads.of_print (same : ∀ depth, y.print depth v = Json.print v) : y.Reads v := by
  intro depth fuel rest enough ends
  rw [same] at enough ⊢
  exact reads v fuel rest enough ends

theorem Layout.readItems_print (items : List Value) (v : Value)
    (reads : ∀ w ∈ v :: items, y.Reads w) :
    ∀ fuel rest, (y.print (depth + 1) v).length + (y.printItems depth items).length ≤ fuel →
      readItems fuel (y.line (depth + 1) ++ (y.print (depth + 1) v ++
        (y.printItems depth items ++ rest))) = some (v :: items, rest) := by
  induction items generalizing v with
  | nil =>
    intro fuel rest enough
    simp only [Layout.printItems, List.length_append, List.length_singleton] at enough
    obtain ⟨fuel, rfl⟩ : ∃ n, fuel = n + 1 := ⟨fuel - 1, by omega⟩
    have first := reads v List.mem_cons_self (depth + 1) fuel (y.line depth ++ ']' :: rest)
      (by omega) (Ends.append (y.line_blank depth) (ends_cons (by decide)))
    simp only [readItems, Layout.printItems, List.append_assoc, List.cons_append, List.nil_append]
    rw [readValue_append (y.line_blank _), first]
    simp only
    rw [skip_append (y.line_blank _), skip_cons (by decide)]
    rfl
  | cons w items ih =>
    intro fuel rest enough
    simp only [Layout.printItems, List.length_append, List.length_cons] at enough
    obtain ⟨fuel, rfl⟩ : ∃ n, fuel = n + 1 := ⟨fuel - 1, by omega⟩
    have first := reads v List.mem_cons_self (depth + 1) fuel
      (',' :: (y.line (depth + 1) ++ (y.print (depth + 1) w ++ (y.printItems depth items ++ rest))))
      (by omega) (ends_cons (by decide))
    have pos := y.print_pos (depth + 1) v
    have others :=
      ih w (fun u member => reads u (List.mem_cons_of_mem _ member)) fuel rest (by omega)
    simp only [readItems, Layout.printItems, List.append_assoc, List.cons_append]
    rw [readValue_append (y.line_blank _), first]
    simp only
    rw [skip_cons (by decide)]
    simp only [others, Option.map_some]

theorem Layout.readMembers_print (members : List (String × Value)) (key : String) (v : Value)
    (reads : ∀ m ∈ (key, v) :: members, y.Reads m.2) :
    ∀ fuel rest, (y.print (depth + 1) v).length + (y.printMembers depth members).length ≤ fuel →
      readMembers fuel (y.line (depth + 1) ++ (quoted key.toList ++ ':' :: (y.gap ++
        (y.print (depth + 1) v ++ (y.printMembers depth members ++ rest))))) =
        some ((key, v) :: members, rest) := by
  induction members generalizing key v with
  | nil =>
    intro fuel rest enough
    simp only [Layout.printMembers, List.length_append, List.length_singleton] at enough
    obtain ⟨fuel, rfl⟩ : ∃ n, fuel = n + 1 := ⟨fuel - 1, by omega⟩
    have first := reads (key, v) List.mem_cons_self (depth + 1) fuel (y.line depth ++ '}' :: rest)
      (by dsimp only; omega) (Ends.append (y.line_blank depth) (ends_cons (by decide)))
    rw [readMembers_append (y.line_blank _)]
    simp only [readMembers, quoted, Layout.printMembers, List.cons_append, List.append_assoc,
      List.nil_append] at first ⊢
    rw [skip_cons (by decide)]
    simp only [readString_escaped]
    rw [skip_cons (by decide)]
    simp only
    rw [readValue_append y.gap_blank, first]
    simp only
    rw [skip_append (y.line_blank _), skip_cons (by decide)]
    simp only [String.ofList_toList]
  | cons w members ih =>
    obtain ⟨key', w⟩ := w
    intro fuel rest enough
    simp only [Layout.printMembers, List.length_append, List.length_cons] at enough
    obtain ⟨fuel, rfl⟩ : ∃ n, fuel = n + 1 := ⟨fuel - 1, by omega⟩
    have first := reads (key, v) List.mem_cons_self (depth + 1) fuel
      (',' :: (y.line (depth + 1) ++ (quoted key'.toList ++ ':' :: (y.gap ++
        (y.print (depth + 1) w ++ (y.printMembers depth members ++ rest))))))
      (by dsimp only; omega) (ends_cons (by decide))
    have pos := y.print_pos (depth + 1) v
    have others := ih key' w (fun u member => reads u (List.mem_cons_of_mem _ member)) fuel rest
      (by omega)
    rw [readMembers_append (y.line_blank _)]
    simp only [readMembers, quoted, Layout.printMembers, List.cons_append, List.append_assoc,
      List.nil_append] at first others ⊢
    rw [skip_cons (by decide)]
    simp only [readString_escaped]
    rw [skip_cons (by decide)]
    simp only
    rw [readValue_append y.gap_blank, first]
    simp only
    rw [skip_cons (by decide)]
    simp only [others, Option.map_some, String.ofList_toList]

/-- Blanks between its parts do not change the value of a text. -/
theorem Layout.reads (y : Layout) (v : Value) : y.Reads v := by
  induction v using Value.induct with
  | null => exact .of_print fun _ => rfl
  | bool b => cases b <;> exact .of_print fun _ => rfl
  | number n => exact .of_print fun _ => rfl
  | string s => exact .of_print fun _ => rfl
  | array items ih =>
    cases items with
    | nil => exact .of_print fun _ => rfl
    | cons v items =>
      apply Layout.Reads.of_succ
      intro depth fuel rest enough ends
      simp only [Layout.print, List.length_append, List.length_cons] at enough
      have inside := @Layout.readItems_print y depth items v ih fuel rest (by omega)
      obtain ⟨c, l, text, blank, open_, -⟩ := y.print_head (depth + 1) v
      rw [readItems_append (y.line_blank _), text] at inside
      simp only [Layout.print, readValue, List.cons_append, List.append_assoc, text] at inside ⊢
      rw [skip_cons (by decide)]
      simp only
      rw [skip_append (y.line_blank _), skip_cons blank]
      split
      · rename_i same
        exact absurd (List.cons.inj same).1 open_
      · rw [inside]
        rfl
  | object members ih =>
    cases members with
    | nil => exact .of_print fun _ => rfl
    | cons m members =>
      apply Layout.Reads.of_succ
      intro depth fuel rest enough ends
      obtain ⟨key, v⟩ := m
      simp only [Layout.print, List.length_append, List.length_cons] at enough
      have inside := @Layout.readMembers_print y depth members key v ih fuel rest (by omega)
      rw [readMembers_append (y.line_blank _)] at inside
      simp only [Layout.print, readValue, quoted, List.cons_append, List.append_assoc] at inside ⊢
      rw [skip_cons (by decide)]
      simp only
      rw [skip_append (y.line_blank _), skip_cons (by decide)]
      split
      · rename_i same
        exact absurd (List.cons.inj same).1 (by decide)
      · rw [inside]
        rfl

/-- A text is read as its value, with blanks behind it as well. -/
theorem Layout.read_print (y : Layout) (v : Value) (blank : ∀ c ∈ b, isBlank c = true) :
    read (y.print 0 v ++ b) = some v := by
  have ends : Ends b := by
    have none_ : Ends [] := fun c head => nomatch head
    have behind := none_.append blank
    rwa [List.append_nil] at behind
  have whole := y.reads v 0 (2 * (y.print 0 v ++ b).length + 1) b
    (by rw [List.length_append]; omega) ends
  have nothing : skip b = [] := List.dropWhile_eq_nil_iff.mpr blank
  rw [read, whole]
  simp only [nothing, List.isEmpty_nil, if_true]

end
end Json
