import Mathlib

namespace Text

/-- A prefix test on characters, so that concrete names can be evaluated. -/
def startsWith (s p : String) : Bool := p.toList.isPrefixOf s.toList

def endsWith (s p : String) : Bool := p.toList.isSuffixOf s.toList

/-- Whether a text occurs somewhere inside another. -/
def contains (s p : String) : Bool := s.toList.tails.any p.toList.isPrefixOf

/-- What follows a prefix, when the text has it. -/
def stripPrefix (s p : String) : Option String :=
  if startsWith s p then some (String.ofList (s.toList.drop p.toList.length)) else none

def stripSuffix (s p : String) : Option String :=
  if endsWith s p then
    some (String.ofList (s.toList.take (s.toList.length - p.toList.length)))
  else none

/-- The text before and after the first occurrence of a separator. -/
def splitOnce (s : String) (c : Char) : Option (String × String) :=
  let l := s.toList
  if c ∈ l then
    some (String.ofList (l.takeWhile (· ≠ c)), String.ofList ((l.dropWhile (· ≠ c)).drop 1))
  else none

/-- A line ends in a newline, which takes one carriage return before it along;
a last line without either is still a line. -/
def linesOf : List Char → List (List Char)
  | [] => []
  | '\n' :: cs => [] :: linesOf cs
  | '\r' :: '\n' :: cs => [] :: linesOf cs
  | c :: cs =>
    match linesOf cs with
    | [] => [[c]]
    | l :: ls => (c :: l) :: ls

def lines (s : String) : List String := (linesOf s.toList).map String.ofList

/-- Unicode White_Space. -/
def isWhitespace (c : Char) : Bool :=
  let n := c.toNat
  (9 ≤ n && n ≤ 13) || n == 0x20 || n == 0x85 || n == 0xA0 || n == 0x1680 ||
    (0x2000 ≤ n && n ≤ 0x200A) || n == 0x2028 || n == 0x2029 || n == 0x202F ||
    n == 0x205F || n == 0x3000

/-- Remove characters satisfying a test from both ends. -/
def trimBy (p : Char → Bool) (s : String) : String :=
  String.ofList ((s.toList.dropWhile p).rdropWhile p)

def trim (s : String) : String := trimBy isWhitespace s

/-- The words of a text, none of them empty. -/
def splitWhitespace (s : String) : List String :=
  ((s.toList.splitBy fun a b => isWhitespace a == isWhitespace b).filter
    fun w => !(w.any isWhitespace)).map String.ofList

def toAsciiLowercase (s : String) : String := String.ofList (s.toList.map Char.toLower)

def eqIgnoreAsciiCase (s t : String) : Bool := toAsciiLowercase s == toAsciiLowercase t

/-- Decimal digits, with an optional plus sign, of a number below `2 ^ bits`. -/
def parseUnsigned (bits : Nat) (s : String) : Option Nat :=
  let digits := match s.toList with
    | '+' :: ds => ds
    | ds => ds
  if digits.isEmpty || !(digits.all Char.isDigit) then none
  else
    let n := digits.foldl (fun n d => 10 * n + (d.toNat - '0'.toNat)) 0
    if n < 2 ^ bits then some n else none

theorem startsWith_iff {s p : String} : startsWith s p = true ↔ p.toList <+: s.toList := by
  simp [startsWith]

theorem endsWith_iff {s p : String} : endsWith s p = true ↔ p.toList <:+ s.toList := by
  simp [endsWith]

/-- Some part of the text is the other text. -/
theorem contains_iff {s p : String} : contains s p = true ↔ ∃ a b, s = a ++ (p ++ b) := by
  unfold contains
  rw [List.any_eq_true]
  constructor
  · rintro ⟨t, tail, start⟩
    obtain ⟨a, ha⟩ := List.mem_tails _ _ |>.mp tail
    obtain ⟨b, hb⟩ := List.isPrefixOf_iff_prefix.mp start
    refine ⟨String.ofList a, String.ofList b, String.toList_inj.mp ?_⟩
    rw [← ha, ← hb]
    simp
  · rintro ⟨a, b, rfl⟩
    refine ⟨p.toList ++ b.toList, (List.mem_tails _ _).mpr ⟨a.toList, ?_⟩, ?_⟩
    · simp
    · simp

@[simp] theorem startsWith_append (p s : String) : startsWith (p ++ s) p = true := by
  simp [startsWith_iff]

@[simp] theorem endsWith_append (s p : String) : endsWith (s ++ p) p = true := by
  simp [endsWith_iff]

theorem endsWith_append_right {s p q : String} (h : endsWith p q = true) :
    endsWith (s ++ p) q = true := by
  rw [endsWith_iff] at h ⊢
  rw [String.toList_append]
  exact h.trans (List.suffix_append _ _)

/-- Two endings of one text are nested, so a text cannot have two endings of
which neither ends in the other. -/
theorem endsWith_unique {s p q : String} (hp : endsWith s p = true) (hq : endsWith s q = true) :
    endsWith p q = true ∨ endsWith q p = true := by
  rw [endsWith_iff] at hp hq
  rcases List.suffix_or_suffix_of_suffix hp hq with h | h
  · exact Or.inr (endsWith_iff.mpr h)
  · exact Or.inl (endsWith_iff.mpr h)

theorem append_right_cancel {s t u : String} (h : s ++ u = t ++ u) : s = t := by
  have h := congrArg String.toList h
  rw [String.toList_append, String.toList_append] at h
  exact String.toList_inj.mp (List.append_cancel_right h)

theorem append_left_cancel {s t u : String} (h : u ++ s = u ++ t) : s = t := by
  have h := congrArg String.toList h
  rw [String.toList_append, String.toList_append] at h
  exact String.toList_inj.mp (List.append_cancel_left h)

theorem stripSuffix_eq_some {s p t : String} : stripSuffix s p = some t ↔ s = t ++ p := by
  unfold stripSuffix
  constructor
  · intro h
    split at h
    · rename_i hp
      obtain ⟨l, hl⟩ := endsWith_iff.mp hp
      cases h
      apply String.toList_inj.mp
      rw [← hl]
      simp
    · cases h
  · rintro rfl
    rw [if_pos (endsWith_append t p)]
    simp

theorem stripPrefix_eq_some {s p t : String} : stripPrefix s p = some t ↔ s = p ++ t := by
  unfold stripPrefix
  constructor
  · intro h
    split at h
    · rename_i hp
      obtain ⟨l, hl⟩ := startsWith_iff.mp hp
      cases h
      apply String.toList_inj.mp
      rw [← hl]
      simp
    · cases h
  · rintro rfl
    rw [if_pos (startsWith_append p t)]
    simp

theorem splitOnce_append {s t : String} {c : Char} (h : c ∉ s.toList) :
    splitOnce (s ++ String.ofList [c] ++ t) c = some (s, t) := by
  have hl : (s ++ String.ofList [c] ++ t).toList = s.toList ++ c :: t.toList := by simp
  have before : ∀ d ∈ s.toList, (fun d => decide (d ≠ c)) d = true := by
    intro d hd
    simpa using fun he : d = c => h (he ▸ hd)
  unfold splitOnce
  simp only [hl, List.takeWhile_append_of_pos before, List.dropWhile_append_of_pos before]
  simp

theorem splitOnce_eq_some {s a b : String} {c : Char} :
    splitOnce s c = some (a, b) ↔ c ∉ a.toList ∧ s = a ++ String.ofList [c] ++ b := by
  constructor
  · intro cut
    have there : c ∈ s.toList := by
      by_contra none
      simp [splitOnce, none] at cut
    obtain ⟨front, back, chars, clean⟩ := List.eq_append_cons_of_mem there
    obtain rfl : s = String.ofList front ++ String.ofList [c] ++ String.ofList back := by
      apply String.toList_inj.mp
      rw [chars]
      simp
    have clean : c ∉ (String.ofList front).toList := by simpa using clean
    rw [splitOnce_append clean] at cut
    cases cut
    exact ⟨clean, rfl⟩
  · rintro ⟨clean, rfl⟩
    exact splitOnce_append clean

/-- A text that starts with a field and a separator has that field, when neither
field holds the separator. -/
theorem field_of_prefix {c : Char} {a b x y : List Char} (ha : c ∉ a) (hb : c ∉ b)
    (h : a ++ c :: x <+: b ++ c :: y) : a = b ∧ x <+: y := by
  induction a generalizing b with
  | nil =>
    cases b with
    | nil =>
      simp only [List.nil_append, List.cons_prefix_cons, true_and] at h
      exact ⟨rfl, h⟩
    | cons d b =>
      simp only [List.nil_append, List.cons_append, List.cons_prefix_cons] at h
      exact absurd (by simp [h.1]) hb
  | cons d a ih =>
    cases b with
    | nil =>
      simp only [List.cons_append, List.nil_append, List.cons_prefix_cons] at h
      exact absurd (by simp [h.1]) ha
    | cons e b =>
      simp only [List.cons_append, List.cons_prefix_cons] at h
      have hr := ih (fun hm => ha (List.mem_cons_of_mem _ hm))
        (fun hm => hb (List.mem_cons_of_mem _ hm)) h.2
      exact ⟨by rw [h.1, hr.1], hr.2⟩

theorem linesOf_cons {c : Char} {cs : List Char} (h : c ≠ '\n' ∧ c ≠ '\r') :
    linesOf (c :: cs) = match linesOf cs with
      | [] => [[c]]
      | l :: ls => (c :: l) :: ls := by
  rw [linesOf.eq_4]
  · exact fun no => h.1 no
  · exact fun _ no _ => h.2 no

/-- A line without line breaks of its own, and its newline. -/
theorem linesOf_line {cs : List Char} (h : ∀ c ∈ cs, c ≠ '\n' ∧ c ≠ '\r') (rest : List Char) :
    linesOf (cs ++ '\n' :: rest) = cs :: linesOf rest := by
  induction cs with
  | nil => rfl
  | cons c cs ih =>
    rw [List.cons_append, linesOf_cons (h c List.mem_cons_self),
      ih fun d hd => h d (List.mem_cons_of_mem _ hd)]

theorem linesOf_last {cs : List Char} (h : ∀ c ∈ cs, c ≠ '\n' ∧ c ≠ '\r') (some : cs ≠ []) :
    linesOf cs = [cs] := by
  induction cs with
  | nil => exact absurd rfl some
  | cons c cs ih =>
    rw [linesOf_cons (h c List.mem_cons_self)]
    cases cs with
    | nil => rfl
    | cons d cs => rw [ih (fun d hd => h d (List.mem_cons_of_mem _ hd)) (List.cons_ne_nil _ _)]

theorem mem_dropWhile {p : Char → Bool} {l : List Char} {c : Char} (h : c ∈ l) (hc : p c = false) :
    c ∈ l.dropWhile p := by
  induction l with
  | nil => cases h
  | cons d l ih =>
    rw [List.dropWhile_cons]
    split
    · rename_i hd
      rcases List.mem_cons.mp h with rfl | h
      · rw [hc] at hd
        cases hd
      · exact ih h
    · exact h

/-- Trimming keeps what it does not look for. -/
theorem mem_trimBy {p : Char → Bool} {s : String} {c : Char} (h : c ∈ s.toList) (hc : p c = false) :
    c ∈ (trimBy p s).toList := by
  rw [trimBy, String.toList_ofList, List.rdropWhile, List.mem_reverse]
  exact mem_dropWhile (List.mem_reverse.mpr (mem_dropWhile h hc)) hc

/-- Trimming takes away what it looks for on both sides of a part that does not end in it. -/
theorem trimBy_eq {p : Char → Bool} {l m r : List Char} (hl : ∀ c ∈ l, p c = true)
    (hr : ∀ c ∈ r, p c = true) (first : ∀ c ∈ m.head?, p c = false)
    (last : ∀ c ∈ m.getLast?, p c = false) :
    trimBy p (String.ofList (l ++ (m ++ r))) = String.ofList m := by
  rw [trimBy, String.toList_ofList, List.dropWhile_append_of_pos hl]
  cases m with
  | nil =>
    rw [List.nil_append, List.dropWhile_eq_nil_iff.mpr hr]
    rfl
  | cons c m =>
    have start : (c :: m ++ r).dropWhile p = c :: m ++ r := by
      simp [first c rfl]
    have finish : (c :: m).reverse.dropWhile p = (c :: m).reverse := by
      rw [List.dropWhile_eq_self_iff]
      intro some
      have same := last ((c :: m).reverse.get ⟨0, some⟩) (by
        rw [← List.head?_reverse, List.head?_eq_getElem?]
        simp)
      simpa using same
    rw [start, List.rdropWhile, List.reverse_append,
      List.dropWhile_append_of_pos fun d hd => hr d (List.mem_reverse.mp hd), finish,
      List.reverse_reverse]

end Text
