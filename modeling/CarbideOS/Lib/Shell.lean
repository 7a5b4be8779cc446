import CarbideOS.Lib.Text

namespace Shell

/-- `${s%c*}`: without the last occurrence of a character and what follows it. -/
def beforeLast (s : String) (c : Char) : String :=
  if c ∈ s.toList then String.ofList (s.toList.rdropWhile (· ≠ c)).dropLast else s

/-- `${s##*c}`: what follows the last occurrence of a character. -/
def afterLast (s : String) (c : Char) : String := String.ofList (s.toList.rtakeWhile (· ≠ c))

/-- `${s%%c*}`: what precedes the first occurrence of a character. -/
def beforeFirst (s : String) (c : Char) : String := String.ofList (s.toList.takeWhile (· ≠ c))

/-- `${s#p}` -/
def withoutPrefix (s p : String) : String := (Text.stripPrefix s p).getD s

/-- `${s%p}` -/
def withoutSuffix (s p : String) : String := (Text.stripSuffix s p).getD s

/-- The pieces of a pattern after a star, with a star between each two of them. -/
def starred : List String → List Char → Bool
  | [], _ => true
  | [piece], s => piece.toList.isSuffixOf s
  | piece :: next :: rest, s => s.tails.any fun t =>
    piece.toList.isPrefixOf t && starred (next :: rest) (t.drop piece.toList.length)

/-- The pattern of a literal start and the pieces after it, each behind a star. A star
matches no leading dot. -/
def glob (start : String) (rest : List String) (file : String) : Bool :=
  start.toList.isPrefixOf file.toList && starred rest (file.toList.drop start.toList.length) &&
    (!start.isEmpty || !Text.startsWith file ".")

/-- What separates the fields of an unquoted expansion. -/
def isBlank (c : Char) : Bool := c == ' ' || c == '\t' || c == '\n'

/-- What makes a field a pattern to be expanded. -/
def isPattern (c : Char) : Bool := c == '*' || c == '?' || c == '['

def fields (s : String) : List String :=
  ((s.toList.splitOnP isBlank).filter (!·.isEmpty)).map String.ofList

section
variable {s t : String} {c : Char}

theorem afterLast_append (h : c ∉ t.toList) : afterLast (s ++ String.ofList [c] ++ t) c = t := by
  have chars : (s ++ String.ofList [c] ++ t).toList.reverse =
      t.toList.reverse ++ c :: s.toList.reverse := by simp
  have before : ∀ d ∈ t.toList.reverse, (fun d => decide (d ≠ c)) d = true := by
    intro d hd
    simpa using fun same : d = c => h (by rw [← same]; exact List.mem_reverse.mp hd)
  rw [afterLast, List.rtakeWhile, chars, List.takeWhile_append_of_pos before]
  simp

theorem beforeLast_append (h : c ∉ t.toList) : beforeLast (s ++ String.ofList [c] ++ t) c = s := by
  have chars : (s ++ String.ofList [c] ++ t).toList.reverse =
      t.toList.reverse ++ c :: s.toList.reverse := by simp
  have before : ∀ d ∈ t.toList.reverse, (fun d => decide (d ≠ c)) d = true := by
    intro d hd
    simpa using fun same : d = c => h (by rw [← same]; exact List.mem_reverse.mp hd)
  have there : c ∈ (s ++ String.ofList [c] ++ t).toList := by simp
  rw [beforeLast, if_pos there, List.rdropWhile, chars, List.dropWhile_append_of_pos before]
  simp

theorem fields_append (s t : String) : fields (s ++ " " ++ t) = fields s ++ fields t := by
  have chars : (s ++ " " ++ t).toList = s.toList ++ ' ' :: t.toList := by simp
  rw [fields, chars, List.splitOnP_append_cons _ _ (by decide), List.filter_append, List.map_append]
  rfl

theorem fields_word (nonempty : s ≠ "") (h : ∀ c ∈ s.toList, isBlank c = false) :
    fields s = [s] := by
  have chars : s.toList ≠ [] := by simpa using nonempty
  rw [fields, List.splitOnP_eq_singleton h]
  simp [chars]

end
end Shell
