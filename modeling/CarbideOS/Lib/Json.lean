import CarbideOS.Lib.Decimal

namespace Json

def numberChar (c : Char) : Bool :=
  c.isDigit || c == '-' || c == '+' || c == '.' || c == 'e' || c == 'E'

/-- Digits without a leading zero, unless zero is the only one. -/
def isWhole (l : List Char) : Bool :=
  !l.isEmpty && l.all Char.isDigit && (l.head? != some '0' || l.length == 1)

/-- Nothing, or an exponent. -/
def isExponent : List Char → Bool
  | [] => true
  | c :: l =>
    let digits := match l with
      | '+' :: l | '-' :: l => l
      | l => l
    (c == 'e' || c == 'E') && !digits.isEmpty && digits.all Char.isDigit

/-- Nothing, or what may follow the whole part of a number. -/
def isFraction : List Char → Bool
  | '.' :: l => !(l.takeWhile Char.isDigit).isEmpty && isExponent (l.dropWhile Char.isDigit)
  | l => isExponent l

def isUnsigned (l : List Char) : Bool :=
  isWhole (l.takeWhile Char.isDigit) && isFraction (l.dropWhile Char.isDigit)

def isNumber (l : List Char) : Bool :=
  l.all numberChar && match l with
    | '-' :: l => isUnsigned l
    | l => isUnsigned l

/-- A number as it is written. -/
structure Number where
  literal : List Char
  wellFormed : isNumber literal = true

inductive Value where
  | null
  | bool (b : Bool)
  | number (n : Number)
  | string (s : String)
  | array (items : List Value)
  | object (members : List (String × Value))

theorem isUnsigned_digits {l : List Char} (digits : ∀ c ∈ l, c.isDigit = true)
    (h : isWhole l = true) : isUnsigned l = true := by
  have taken : l.takeWhile Char.isDigit = l := List.takeWhile_eq_self_iff.mpr digits
  have left : l.dropWhile Char.isDigit = [] := List.dropWhile_eq_nil_iff.mpr digits
  rw [isUnsigned, taken, left, h]
  rfl

theorem isUnsigned_toDigits (n : Nat) : isUnsigned (Nat.toDigits 10 n) = true := by
  rcases Nat.eq_zero_or_pos n with rfl | pos
  · decide
  · obtain ⟨some_, leading, digits⟩ := Decimal.canonical_toDigits pos
    apply isUnsigned_digits digits
    simp [isWhole, some_, leading]
    exact digits

theorem numberChar_digits {l : List Char} (digits : ∀ c ∈ l, c.isDigit = true) :
    l.all numberChar = true := by
  rw [List.all_eq_true]
  intro c member
  simp [numberChar, digits c member]

theorem digits_toDigits (n : Nat) : ∀ c ∈ Nat.toDigits 10 n, c.isDigit = true :=
  fun _ member => Nat.isDigit_of_mem_toDigits (by decide) (by decide) member

def Number.ofNat (n : Nat) : Number where
  literal := Nat.toDigits 10 n
  wellFormed := by
    have digits := numberChar_digits (digits_toDigits n)
    unfold isNumber
    rw [digits, Bool.true_and]
    split
    · rename_i minus
      exact absurd (digits_toDigits n '-' (by rw [minus]; exact List.mem_cons_self)) (by decide)
    · exact isUnsigned_toDigits n

def Number.ofInt : Int → Number
  | .ofNat n => Number.ofNat n
  | .negSucc n =>
    { literal := '-' :: Nat.toDigits 10 (n + 1)
      wellFormed := by
        have digits := numberChar_digits (digits_toDigits (n + 1))
        rw [isNumber, List.all_cons, digits]
        exact isUnsigned_toDigits (n + 1) }

def hexDigit (n : Nat) : Char := if n < 10 then Char.ofNat (48 + n) else Char.ofNat (87 + n)

def escape (c : Char) : List Char :=
  if c = '"' then ['\\', '"']
  else if c = '\\' then ['\\', '\\']
  else if c = '\x08' then ['\\', 'b']
  else if c = '\t' then ['\\', 't']
  else if c = '\n' then ['\\', 'n']
  else if c = '\x0c' then ['\\', 'f']
  else if c = '\r' then ['\\', 'r']
  else if c.toNat < 32 then
    ['\\', 'u', '0', '0', hexDigit (c.toNat / 16), hexDigit (c.toNat % 16)]
  else [c]

def quoted (s : List Char) : List Char := '"' :: s.flatMap escape ++ ['"']

mutual

/-- The compact text of a value. -/
def print : Value → List Char
  | .null => ['n', 'u', 'l', 'l']
  | .bool true => ['t', 'r', 'u', 'e']
  | .bool false => ['f', 'a', 'l', 's', 'e']
  | .number n => n.literal
  | .string s => quoted s.toList
  | .array [] => ['[', ']']
  | .array (v :: items) => '[' :: print v ++ printItems items
  | .object [] => ['{', '}']
  | .object ((key, v) :: members) =>
    '{' :: quoted key.toList ++ ':' :: print v ++ printMembers members

/-- The rest of an array behind an item. -/
def printItems : List Value → List Char
  | [] => [']']
  | v :: items => ',' :: print v ++ printItems items

/-- The rest of an object behind a member. -/
def printMembers : List (String × Value) → List Char
  | [] => ['}']
  | (key, v) :: members => ',' :: quoted key.toList ++ ':' :: print v ++ printMembers members

end

def isBlank (c : Char) : Bool := c == ' ' || c == '\t' || c == '\n' || c == '\r'

/-- What is left behind blanks. -/
def skip (l : List Char) : List Char := l.dropWhile isBlank

def hexValue (c : Char) : Option Nat :=
  if c.isDigit then some (c.toNat - 48)
  else if 'a' ≤ c ∧ c ≤ 'f' then some (c.toNat - 87)
  else if 'A' ≤ c ∧ c ≤ 'F' then some (c.toNat - 55)
  else none

def hexUnit (a b c d : Char) : Option Nat := do
  let a ← hexValue a
  let b ← hexValue b
  let c ← hexValue c
  let d ← hexValue d
  pure (((a * 16 + b) * 16 + c) * 16 + d)

def unescape (c : Char) : Option Char :=
  if c = '"' then some '"'
  else if c = '\\' then some '\\'
  else if c = '/' then some '/'
  else if c = 'b' then some '\x08'
  else if c = 't' then some '\t'
  else if c = 'n' then some '\n'
  else if c = 'f' then some '\x0c'
  else if c = 'r' then some '\r'
  else none

/-- One more character in front of those that were read. -/
def push {α : Type} (c : Char) (read : Option (List Char × α)) : Option (List Char × α) :=
  read.map fun p => (c :: p.1, p.2)

/-- The rest of a string and what follows it, after the first half of a surrogate pair
when there is one. -/
def readString : Option Nat → List Char → Option (List Char × List Char)
  | none, '"' :: rest => some ([], rest)
  | none, '\\' :: 'u' :: a :: b :: c :: d :: rest =>
    match hexUnit a b c d with
    | none => none
    | some unit =>
      if 0xD800 ≤ unit ∧ unit < 0xDC00 then readString (some unit) rest
      else if 0xDC00 ≤ unit ∧ unit < 0xE000 then none
      else push (Char.ofNat unit) (readString none rest)
  | some high, '\\' :: 'u' :: a :: b :: c :: d :: rest =>
    match hexUnit a b c d with
    | none => none
    | some low =>
      if 0xDC00 ≤ low ∧ low < 0xE000 then
        push (Char.ofNat (0x10000 + (high - 0xD800) * 0x400 + (low - 0xDC00)))
          (readString none rest)
      else none
  | none, '\\' :: c :: rest =>
    match unescape c with
    | none => none
    | some c => push c (readString none rest)
  | none, c :: rest => if c.toNat < 32 then none else push c (readString none rest)
  | _, _ => none

def readNumber (l : List Char) : Option (Value × List Char) :=
  if h : isNumber (l.takeWhile numberChar) = true then
    some (.number ⟨_, h⟩, l.dropWhile numberChar)
  else none

mutual

/-- A value and what follows it. -/
def readValue : Nat → List Char → Option (Value × List Char)
  | 0, _ => none
  | fuel + 1, l =>
    match skip l with
    | 'n' :: 'u' :: 'l' :: 'l' :: rest => some (.null, rest)
    | 't' :: 'r' :: 'u' :: 'e' :: rest => some (.bool true, rest)
    | 'f' :: 'a' :: 'l' :: 's' :: 'e' :: rest => some (.bool false, rest)
    | '"' :: rest => (readString none rest).map fun p => (.string (String.ofList p.1), p.2)
    | '[' :: rest =>
      match skip rest with
      | ']' :: rest => some (.array [], rest)
      | rest => (readItems fuel rest).map fun p => (.array p.1, p.2)
    | '{' :: rest =>
      match skip rest with
      | '}' :: rest => some (.object [], rest)
      | rest => (readMembers fuel rest).map fun p => (.object p.1, p.2)
    | l => readNumber l

/-- The items of an array up to its end, and what follows it. -/
def readItems : Nat → List Char → Option (List Value × List Char)
  | 0, _ => none
  | fuel + 1, l =>
    match readValue fuel l with
    | none => none
    | some (v, rest) =>
      match skip rest with
      | ']' :: rest => some ([v], rest)
      | ',' :: rest => (readItems fuel rest).map fun p => (v :: p.1, p.2)
      | _ => none

/-- The members of an object up to its end, and what follows it. -/
def readMembers : Nat → List Char → Option (List (String × Value) × List Char)
  | 0, _ => none
  | fuel + 1, l =>
    match skip l with
    | '"' :: rest =>
      match readString none rest with
      | none => none
      | some (key, rest) =>
        match skip rest with
        | ':' :: rest =>
          match readValue fuel rest with
          | none => none
          | some (v, rest) =>
            match skip rest with
            | '}' :: rest => some ([(String.ofList key, v)], rest)
            | ',' :: rest =>
              (readMembers fuel rest).map fun p => ((String.ofList key, v) :: p.1, p.2)
            | _ => none
        | _ => none
    | _ => none

end

/-- The value of a text, when the text is JSON. -/
def read (l : List Char) : Option Value :=
  match readValue (2 * l.length + 1) l with
  | some (v, rest) => if (skip rest).isEmpty then some v else none
  | none => none

/-- The value of a key. -/
def Value.get (v : Value) (key : String) : Option Value :=
  match v with
  | .object members => members.lookup key
  | _ => none

def Value.asStr : Value → Option String
  | .string s => some s
  | _ => none

/-- A number without a sign or a fraction, when it has 64 bits. -/
def Value.asU64 : Value → Option Nat
  | .number n =>
    let value := Nat.ofDigitChars 10 n.literal 0
    if n.literal.all Char.isDigit ∧ value < 2 ^ 64 then some value else none
  | _ => none

/-- A property of all values, from one case for each shape. -/
theorem Value.induct {P : Value → Prop} (null : P .null) (bool : ∀ b, P (.bool b))
    (number : ∀ n, P (.number n)) (string : ∀ s, P (.string s))
    (array : ∀ items, (∀ v ∈ items, P v) → P (.array items))
    (object : ∀ members : List (String × Value), (∀ m ∈ members, P m.2) → P (.object members)) :
    ∀ v, P v
  | .null => null
  | .bool b => bool b
  | .number n => number n
  | .string s => string s
  | .array items =>
    array items fun v _ => Value.induct null bool number string array object v
  | .object members =>
    object members fun m _ => Value.induct null bool number string array object m.2
termination_by v => sizeOf v
decreasing_by
  · have := List.sizeOf_lt_of_mem ‹_›
    simp
    omega
  · have := List.sizeOf_lt_of_mem ‹_›
    obtain ⟨key, v⟩ := m
    simp at this ⊢
    omega

section
variable {v : Value} {l rest s : List Char} {c : Char} {fuel : Nat}

theorem skip_cons (h : isBlank c = false) : skip (c :: l) = c :: l := by simp [skip, h]

theorem hexUnit_control : ∀ n < 32,
    hexUnit '0' '0' (hexDigit (n / 16)) (hexDigit (n % 16)) = some n := by
  decide

/-- An escaped character is read as the character. -/
theorem readString_escape (c : Char) :
    readString none (escape c ++ rest) = push c (readString none rest) := by
  unfold escape
  split
  · subst c
    rfl
  split
  · subst c
    rfl
  split
  · subst c
    rfl
  split
  · subst c
    rfl
  split
  · subst c
    rfl
  split
  · subst c
    rfl
  split
  · subst c
    rfl
  split
  · rename_i small
    have unit := hexUnit_control c.toNat small
    simp only [List.cons_append, List.nil_append, readString, unit]
    rw [if_neg (by omega), if_neg (by omega), Char.ofNat_toNat]
  · rename_i quote slash _ _ _ _ _ large
    simp only [List.cons_append, List.nil_append]
    rw [readString, if_neg large]
    all_goals simp_all

theorem readString_escaped (s : List Char) :
    readString none (s.flatMap escape ++ '"' :: rest) = some (s, rest) := by
  induction s with
  | nil => rfl
  | cons c s ih =>
    rw [List.flatMap_cons, List.append_assoc, readString_escape, ih]
    rfl

/-- What follows a value does not go on a number. -/
def Ends (rest : List Char) : Prop := ∀ c ∈ rest.head?, numberChar c = false

theorem readNumber_literal (n : Number) (ends : Ends rest) :
    readNumber (n.literal ++ rest) = some (.number n, rest) := by
  have all : ∀ c ∈ n.literal, numberChar c = true := by
    have whole := n.wellFormed
    unfold isNumber at whole
    rw [Bool.and_eq_true, List.all_eq_true] at whole
    exact whole.1
  have stop : rest.takeWhile numberChar = [] ∧ rest.dropWhile numberChar = rest := by
    cases rest with
    | nil => exact ⟨rfl, rfl⟩
    | cons c rest =>
      have := ends c rfl
      simp [this]
  have taken : (n.literal ++ rest).takeWhile numberChar = n.literal := by
    rw [List.takeWhile_append_of_pos all, stop.1, List.append_nil]
  have left : (n.literal ++ rest).dropWhile numberChar = rest := by
    rw [List.dropWhile_append_of_pos all, stop.2]
  rw [readNumber, dif_pos (by rw [taken]; exact n.wellFormed), left]
  simp only [taken]

theorem isUnsigned_head (h : isUnsigned l = true) : ∃ c rest, l = c :: rest ∧ c.isDigit = true := by
  cases l with
  | nil => cases h
  | cons c rest =>
    refine ⟨c, rest, rfl, ?_⟩
    by_contra other
    rw [isUnsigned, List.takeWhile_cons_of_neg other] at h
    cases h

theorem literal_head (n : Number) : ∃ c l, n.literal = c :: l ∧ (c.isDigit = true ∨ c = '-') := by
  have whole := n.wellFormed
  unfold isNumber at whole
  rw [Bool.and_eq_true] at whole
  obtain ⟨-, whole⟩ := whole
  split at whole
  · exact ⟨_, _, ‹_›, .inr rfl⟩
  · obtain ⟨c, rest, split, digit⟩ := isUnsigned_head whole
    exact ⟨c, rest, split, .inl digit⟩

/-- A digit or a sign starts nothing but a number. -/
theorem readValue_number (head : c.isDigit = true ∨ c = '-') (blank : isBlank c = false) :
    readValue (fuel + 1) (c :: l) = readNumber (c :: l) := by
  rw [readValue, skip_cons blank]
  split
  case h_7 => rfl
  all_goals
    obtain ⟨rfl, -⟩ := List.cons.inj ‹_›
    exact absurd head (by decide)

/-- A value starts with a character that is neither blank nor a closing bracket. -/
theorem print_head (v : Value) : ∃ c l, print v = c :: l ∧ isBlank c = false ∧ c ≠ ']' ∧
    c ≠ '}' := by
  cases v with
  | null => exact ⟨_, _, rfl, by decide⟩
  | bool b => cases b <;> exact ⟨_, _, rfl, by decide⟩
  | number n =>
    obtain ⟨c, l, literal, head⟩ := literal_head n
    refine ⟨c, l, literal, ?_⟩
    rcases head with digit | rfl
    · refine ⟨?_, ?_, ?_⟩
      · simp only [isBlank, Bool.or_eq_false_iff, beq_eq_false_iff_ne]
        refine ⟨⟨⟨?_, ?_⟩, ?_⟩, ?_⟩ <;> rintro rfl <;> cases digit
      · rintro rfl
        cases digit
      · rintro rfl
        cases digit
    · decide
  | string s => exact ⟨_, _, rfl, by decide⟩
  | array items => cases items <;> exact ⟨_, _, rfl, by decide⟩
  | object members => cases members <;> exact ⟨_, _, rfl, by decide⟩

/-- The text of a value is read as the value, with enough fuel for its length. -/
def Reads (v : Value) : Prop :=
  ∀ fuel rest, (print v).length ≤ fuel → Ends rest →
    readValue fuel (print v ++ rest) = some (v, rest)

theorem ends_cons (h : numberChar c = false) : Ends (c :: rest) := by
  intro d head
  obtain rfl : c = d := Option.some.inj head
  exact h

theorem print_pos (v : Value) : 0 < (print v).length := by
  obtain ⟨c, l, text, -⟩ := print_head v
  rw [text]
  exact Nat.succ_pos _

/-- A text has a character at least, so there is fuel for one step. -/
theorem Reads.of_succ (h : ∀ fuel rest, (print v).length ≤ fuel + 1 → Ends rest →
    readValue (fuel + 1) (print v ++ rest) = some (v, rest)) : Reads v := by
  intro fuel rest enough ends
  cases fuel with
  | zero => exact absurd enough (Nat.not_le_of_lt (print_pos v))
  | succ fuel => exact h fuel rest enough ends

theorem readItems_print (items : List Value) (v : Value) (reads : ∀ w ∈ v :: items, Reads w) :
    ∀ fuel rest, (print v).length + (printItems items).length ≤ fuel →
      readItems fuel (print v ++ (printItems items ++ rest)) = some (v :: items, rest) := by
  induction items generalizing v with
  | nil =>
    intro fuel rest enough
    obtain ⟨fuel, rfl⟩ : ∃ n, fuel = n + 1 := ⟨fuel - 1, by simp [printItems] at enough; omega⟩
    have first :=
      reads v List.mem_cons_self fuel (']' :: rest) (by simp [printItems] at enough; omega)
      (ends_cons (by decide))
    simp only [readItems, printItems, List.cons_append, List.nil_append, first]
    rw [skip_cons (by decide)]
    rfl
  | cons w items ih =>
    intro fuel rest enough
    rw [printItems, List.length_append, List.length_cons] at enough
    obtain ⟨fuel, rfl⟩ : ∃ n, fuel = n + 1 := ⟨fuel - 1, by omega⟩
    have first := reads v List.mem_cons_self fuel (',' :: (print w ++ (printItems items ++ rest)))
      (by omega) (ends_cons (by decide))
    have pos := print_pos v
    have others :=
      ih w (fun u member => reads u (List.mem_cons_of_mem _ member)) fuel rest (by omega)
    simp only [readItems, printItems, List.cons_append, List.append_assoc, first]
    rw [skip_cons (by decide)]
    simp only [others, Option.map_some]

theorem readMembers_print (members : List (String × Value)) (key : String) (v : Value)
    (reads : ∀ m ∈ (key, v) :: members, Reads m.2) :
    ∀ fuel rest, (print v).length + (printMembers members).length ≤ fuel →
      readMembers fuel (quoted key.toList ++ ':' :: (print v ++ (printMembers members ++ rest))) =
        some ((key, v) :: members, rest) := by
  induction members generalizing key v with
  | nil =>
    intro fuel rest enough
    obtain ⟨fuel, rfl⟩ : ∃ n, fuel = n + 1 := ⟨fuel - 1, by simp [printMembers] at enough; omega⟩
    have first := reads (key, v) List.mem_cons_self fuel ('}' :: rest)
      (by simp [printMembers] at enough; omega) (ends_cons (by decide))
    simp only [readMembers, quoted, printMembers, List.cons_append, List.append_assoc,
      List.nil_append]
    rw [skip_cons (by decide)]
    simp only [readString_escaped]
    rw [skip_cons (by decide)]
    simp only [first]
    rw [skip_cons (by decide)]
    simp only [String.ofList_toList]
  | cons w members ih =>
    obtain ⟨key', w⟩ := w
    intro fuel rest enough
    simp only [printMembers, List.length_append, List.length_cons] at enough
    obtain ⟨fuel, rfl⟩ : ∃ n, fuel = n + 1 := ⟨fuel - 1, by omega⟩
    have first := reads (key, v) List.mem_cons_self fuel
      (',' :: (quoted key'.toList ++ ':' :: (print w ++ (printMembers members ++ rest))))
      (by dsimp only; omega) (ends_cons (by decide))
    have pos := print_pos v
    have others := ih key' w (fun u member => reads u (List.mem_cons_of_mem _ member)) fuel rest
      (by omega)
    simp only [readMembers, quoted, printMembers, List.cons_append, List.append_assoc,
      List.nil_append] at first others ⊢
    rw [skip_cons (by decide)]
    simp only [readString_escaped]
    rw [skip_cons (by decide)]
    simp only [first]
    rw [skip_cons (by decide)]
    simp only [others, Option.map_some, String.ofList_toList]

/-- The text of a value is read as the value. -/
theorem reads (v : Value) : Reads v := by
  induction v using Value.induct with
  | null => exact Reads.of_succ fun _ _ _ _ => rfl
  | bool b => cases b <;> exact Reads.of_succ fun _ _ _ _ => rfl
  | number n =>
    apply Reads.of_succ
    intro fuel rest enough ends
    have literal := readNumber_literal n ends
    obtain ⟨c, l, head, some_⟩ := literal_head n
    obtain ⟨c', l', head', blank, -⟩ := print_head (.number n)
    obtain ⟨rfl, rfl⟩ := List.cons.inj (head.symm.trans head')
    rw [print, head, List.cons_append, readValue_number some_ blank, ← List.cons_append, ← head,
      literal]
  | string s =>
    apply Reads.of_succ
    intro fuel rest enough ends
    simp only [print, quoted, readValue, List.cons_append, List.append_assoc, List.nil_append]
    rw [skip_cons (by decide)]
    simp only [readString_escaped, Option.map_some, String.ofList_toList]
  | array items ih =>
    cases items with
    | nil => exact Reads.of_succ fun _ _ _ _ => rfl
    | cons v items =>
      apply Reads.of_succ
      intro fuel rest enough ends
      simp only [print, List.length_append, List.length_cons] at enough
      have inside := readItems_print items v ih fuel rest (by omega)
      obtain ⟨c, l, text, blank, open_, -⟩ := print_head v
      rw [text] at inside
      simp only [print, readValue, List.cons_append, List.append_assoc, text] at inside ⊢
      rw [skip_cons (by decide)]
      simp only
      rw [skip_cons blank]
      split
      · rename_i same
        exact absurd (List.cons.inj same).1 open_
      · rw [inside]
        rfl
  | object members ih =>
    cases members with
    | nil => exact Reads.of_succ fun _ _ _ _ => rfl
    | cons m members =>
      apply Reads.of_succ
      intro fuel rest enough ends
      obtain ⟨key, v⟩ := m
      simp only [print, List.length_append, List.length_cons] at enough
      have inside := readMembers_print members key v ih fuel rest (by omega)
      simp only [print, readValue, quoted, List.cons_append, List.append_assoc] at inside ⊢
      simp (disch := decide) only [skip_cons]
      split
      · rename_i same
        exact absurd (List.cons.inj same).1 (by decide)
      · rw [inside]
        rfl

theorem read_print (v : Value) : read (print v) = some v := by
  have whole := reads v (2 * (print v).length + 1) [] (by omega) (by simp [Ends])
  rw [List.append_nil] at whole
  rw [read, whole]
  rfl

theorem escape_line (c : Char) : '\n' ∉ escape c := by
  unfold escape
  have hex : ∀ n < 32, '\n' ≠ hexDigit (n / 16) ∧ '\n' ≠ hexDigit (n % 16) := by decide
  split
  · decide
  split
  · decide
  split
  · decide
  split
  · decide
  split
  · decide
  split
  · decide
  split
  · decide
  split
  · rename_i small
    simp [hex c.toNat small]
  · rename_i newline _ _ _
    simpa using fun same : '\n' = c => newline same.symm

theorem quoted_line (s : List Char) : '\n' ∉ quoted s := by
  simp [quoted, escape_line]

theorem printItems_line {items : List Value} (lines : ∀ v ∈ items, '\n' ∉ print v) :
    '\n' ∉ printItems items := by
  induction items with
  | nil => decide
  | cons v items ih =>
    rw [List.forall_mem_cons] at lines
    simp [printItems, lines.1, ih lines.2]

theorem printMembers_line {members : List (String × Value)}
    (lines : ∀ m ∈ members, '\n' ∉ print m.2) : '\n' ∉ printMembers members := by
  induction members with
  | nil => decide
  | cons m members ih =>
    rw [List.forall_mem_cons] at lines
    simp [printMembers, quoted_line, lines.1, ih lines.2]

/-- The text of a value is one line. -/
theorem print_line (v : Value) : '\n' ∉ print v := by
  induction v using Value.induct with
  | null => decide
  | bool b => cases b <;> decide
  | number n =>
    intro there
    have whole := n.wellFormed
    unfold isNumber at whole
    rw [Bool.and_eq_true, List.all_eq_true] at whole
    exact absurd (whole.1 _ there) (by decide)
  | string s => exact quoted_line s.toList
  | array items ih =>
    cases items with
    | nil => decide
    | cons v items =>
      rw [List.forall_mem_cons] at ih
      simp [print, ih.1, printItems_line ih.2]
  | object members ih =>
    cases members with
    | nil => decide
    | cons m members =>
      rw [List.forall_mem_cons] at ih
      simp [print, quoted_line, ih.1, printMembers_line ih.2]

end

end Json
