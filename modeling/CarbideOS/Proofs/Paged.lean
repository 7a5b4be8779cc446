import CarbideOS.Agent.Journal
import CarbideOS.Proofs.Answered

namespace CarbideOS.Agent

/-- A line that is returned as it was printed. -/
structure Verbatim (line : String) : Prop where
  noReturn : line.toList.getLast? ≠ some '\r'
  noCursor : Text.stripPrefix (Text.trim line) "-- cursor:" = none
  noEntries : Text.startsWith line "-- No entries" = false

/-- The line is taken for one that the reader itself has printed. -/
def dropped (line : String) : Bool :=
  (Text.stripPrefix (Text.trim line) "-- cursor:").isSome || Text.startsWith line "-- No entries"

def chomped (line : String) : String := String.ofList (Text.chomp line.toList)

/-- What is returned of some lines. -/
def returned (lines : List String) : List String :=
  (lines.map chomped).filter fun line => !dropped line

/-- Following the cursors from a request yields every line behind its starting point, and
no page is the last while there are entries that none has shown. -/
def LosesNothing (services : Services) (j : Journal) (asked : List (String × Json.Value)) : Prop :=
  ∃ fuel pages, follow services fuel asked = some pages ∧
    pages.flatMap Page.lines = (j.behind (requestedLines (.object asked))
      (text (.object asked) "cursor")).flatMap JournalEntry.lines ∧
    ∀ p ∈ pages, p.eof = true → j.remaining p.cursor = []

section
variable {lines : List String} {line key : String} {value : Json.Value}
  {data : List (String × Json.Value)}

theorem lookup_insertKey (key other : String) (value : Json.Value)
    (data : List (String × Json.Value)) : (insertKey key value data).lookup other =
      if other = key then some value else data.lookup other := by
  induction data with
  | nil =>
    rw [insertKey, List.lookup_cons]
    split <;> simp_all
  | cons d data ih =>
    rw [insertKey]
    split
    · rename_i same
      rw [List.lookup_cons, List.lookup_cons, ← same]
      split <;> simp_all
    · split
      · rw [List.lookup_cons]
        split <;> simp_all
      · rename_i different _
        rw [List.lookup_cons, List.lookup_cons, ih]
        split
        · rename_i here
          rw [if_neg]
          rintro rfl
          exact different (beq_iff_eq.mp here)
        · rfl

theorem returned_length_le (lines : List String) : (returned lines).length ≤ lines.length := by
  have := List.length_filter_le (fun line => !dropped line) (lines.map chomped)
  rwa [List.length_map] at this

theorem chomped_eq_iff : chomped line = line ↔ line.toList.getLast? ≠ some '\r' := by
  rw [← Text.chomp_eq_iff, ← String.toList_inj, chomped, String.toList_ofList]

theorem map_chomped_iff : lines.map chomped = lines ↔ ∀ line ∈ lines, chomped line = line := by
  have same := List.map_inj_left (l := lines) (f := chomped) (g := id)
  rwa [List.map_id] at same

theorem verbatim_iff : Verbatim line ↔ chomped line = line ∧ dropped line = false := by
  rw [chomped_eq_iff, dropped, Bool.or_eq_false_iff, Option.isSome_eq_false_iff,
    Option.isNone_iff_eq_none]
  exact ⟨fun h => ⟨h.1, h.2, h.3⟩, fun h => ⟨h.1, h.2.1, h.2.2⟩⟩

/-- Lines are returned as they were printed when each of them is. -/
theorem returned_eq_iff : returned lines = lines ↔ ∀ line ∈ lines, Verbatim line := by
  constructor
  · intro same
    have all : ∀ line ∈ lines.map chomped, (!dropped line) = true := by
      rw [← List.length_filter_eq_length_iff]
      rw [List.length_map]
      exact congrArg List.length same
    rw [returned, List.filter_eq_self.mpr all] at same
    intro line member
    have chomp : chomped line = line := map_chomped_iff.mp same line member
    have keep := all line (by rw [same]; exact member)
    exact verbatim_iff.mpr ⟨chomp, by simpa using keep⟩
  · intro each
    have chomp : lines.map chomped = lines :=
      map_chomped_iff.mpr fun line member => (verbatim_iff.mp (each line member)).1
    rw [returned, chomp, List.filter_eq_self]
    intro line member
    rw [(verbatim_iff.mp (each line member)).2]
    rfl

/-- What is collected does not depend on cursors on the way. -/
theorem foldl_collectLine (lines read : List String) (next : Option String) :
    ∃ next', lines.foldl collectLine (read, next) =
      (read ++ lines.filter (fun line => !dropped line), next') ∧ (lines = [] → next' = next) := by
  induction lines generalizing read next with
  | nil => exact ⟨next, by simp, fun _ => rfl⟩
  | cons line lines ih =>
    rw [List.foldl_cons, List.filter_cons, dropped, collectLine]
    cases cursor : Text.stripPrefix (Text.trim line) "-- cursor:" with
    | some value =>
      obtain ⟨next', fold, -⟩ := ih read (some (Text.trim value))
      exact ⟨next', by simpa using fold, nofun⟩
    | none =>
      cases entries : Text.startsWith line "-- No entries" with
      | true =>
        obtain ⟨next', fold, -⟩ := ih read next
        exact ⟨next', by simpa using fold, nofun⟩
      | false =>
        obtain ⟨next', fold, -⟩ := ih (read ++ [line]) next
        exact ⟨next', by simpa using fold, nofun⟩

end

section
variable {j : Journal} {n : Nat} {c : String} {cursor : Option String} {e : JournalEntry}

/-- A name for a place in the journal: a text without blanks. -/
def Word (c : String) : Prop := c ≠ "" ∧ ∀ d ∈ c.toList, Text.isWhitespace d = false

theorem Word.last (h : Word c) (before : List Char) :
    ∀ d ∈ (before ++ c.toList).getLast?, Text.isWhitespace d = false := by
  intro d last
  have chars : c.toList ≠ [] := by simpa using h.1
  rw [List.getLast?_append_of_ne_nil _ chars] at last
  exact h.2 d (List.mem_of_getLast? last)

theorem trim_cursor (h : Word c) : Text.trim ("-- cursor: " ++ c) = "-- cursor: " ++ c := by
  have whole : "-- cursor: " ++ c =
      String.ofList ([] ++ (("-- cursor: ".toList ++ c.toList) ++ [])) := by
    apply String.toList_inj.mp
    simp
  have first : ∀ d ∈ ("-- cursor: ".toList ++ c.toList).head?, Text.isWhitespace d = false := by
    intro d first
    obtain rfl : '-' = d := Option.some.inj first
    decide
  rw [whole, Text.trim, Text.trimBy_eq (by simp) (by simp) first (h.last _)]
  simp

theorem trim_value (h : Word c) : Text.trim (" " ++ c) = c := by
  have whole : " " ++ c = String.ofList ([' '] ++ (c.toList ++ [])) := by
    apply String.toList_inj.mp
    simp
  have first : ∀ d ∈ c.toList.head?, Text.isWhitespace d = false :=
    fun d first => h.2 d (List.mem_of_head? first)
  have last : ∀ d ∈ c.toList.getLast?, Text.isWhitespace d = false := by
    simpa using h.last []
  have blank : ∀ d ∈ [' '], Text.isWhitespace d = true := by
    intro d member
    obtain rfl := List.mem_singleton.mp member
    rfl
  rw [whole, Text.trim, Text.trimBy_eq blank (by simp) first last, String.ofList_toList]

/-- The last line of the output is the cursor. -/
theorem collectLine_cursor (h : Word c) (read : List String × Option String) :
    collectLine read ("-- cursor: " ++ c) = (read.1, some c) := by
  have value : Text.stripPrefix ("-- cursor: " ++ c) "-- cursor:" = some (" " ++ c) := by
    rw [Text.stripPrefix_eq_some]
    apply String.toList_inj.mp
    simp
  rw [collectLine, trim_cursor h, value]
  simp only [trim_value h]

theorem chomped_cursor (h : Word c) : chomped ("-- cursor: " ++ c) = ("-- cursor: " ++ c) := by
  rw [chomped_eq_iff]
  intro cr
  have blank := h.last "-- cursor: ".toList '\r' (by simpa using cr)
  cases blank

theorem JournalEntry.isWord (e : JournalEntry) : Word e.cursor := ⟨e.named, e.word⟩

/-- The last entry that is shown, or else the place that was asked for, is where a page
ends. -/
def place (shown : List JournalEntry) (cursor : Option String) : Option String :=
  (shown.getLast?.map JournalEntry.cursor).or cursor

theorem place_word {shown : List JournalEntry} (word : ∀ c ∈ cursor, Word c) :
    ∀ c ∈ place shown cursor, Word c := by
  intro c at_
  rw [place] at at_
  cases last : shown.getLast? with
  | none =>
    rw [last] at at_
    exact word c at_
  | some e =>
    rw [last] at at_
    obtain rfl : e.cursor = c := Option.some.inj at_
    exact e.isWord

theorem trailer_eq (shown : List JournalEntry) (cursor : Option String) :
    Journal.trailer shown cursor =
    (if shown.isEmpty then ["-- No entries --"] else []) ++
      ((place shown cursor).map fun cursor => "-- cursor: " ++ cursor).toList := rfl

theorem foldl_trailer {shown : List JournalEntry} (word : ∀ c ∈ cursor, Word c) (read : List String)
    (next : Option String) (first : shown = [] → next = none) :
    ((Journal.trailer shown cursor).map chomped).foldl collectLine (read, next) =
      (read, place shown cursor) := by
  have note : (((if shown.isEmpty then ["-- No entries --"] else []) : List String).map
      chomped).foldl collectLine (read, next) = (read, next) := by
    split
    · have none_ : chomped "-- No entries --" = "-- No entries --" := by decide +kernel
      rw [List.map_singleton, none_]
      rfl
    · rfl
  rw [trailer_eq, List.map_append, List.foldl_append, note]
  cases at_ : place shown cursor with
  | none =>
    have empty : shown = [] := by
      rw [place] at at_
      simpa using (Option.or_eq_none_iff.mp at_).1
    rw [first empty]
    rfl
  | some c =>
    have h : Word c := place_word word c at_
    simp only [Option.map_some, Option.toList_some, List.map_singleton, List.foldl_cons,
      List.foldl_nil, chomped_cursor h, collectLine_cursor h]

theorem trailer_plain {shown : List JournalEntry} (word : ∀ c ∈ cursor, Word c) :
    ∀ line ∈ Journal.trailer shown cursor, '\n' ∉ line.toList := by
  intro line member
  rw [trailer_eq] at member
  rcases List.mem_append.mp member with note | last
  · split at note
    · obtain rfl := List.mem_singleton.mp note
      decide
    · cases note
  · obtain ⟨c, at_, rfl⟩ : ∃ c, place shown cursor = some c ∧ "-- cursor: " ++ c = line := by
      simpa using last
    have h := place_word word c at_
    rw [String.toList_append, List.mem_append, not_or]
    refine ⟨by decide, fun newline => ?_⟩
    cases h.2 _ newline

/-- What is read of the output. -/
theorem read_output (word : ∀ c ∈ cursor, Word c) :
    (Text.lines (j.output n cursor)).foldl collectLine ([], none) =
      (returned (((j.behind n cursor).take n).flatMap JournalEntry.lines),
        place ((j.behind n cursor).take n) cursor) := by
  have plain : ∀ line ∈ (((j.behind n cursor).take n).flatMap JournalEntry.lines ++
      Journal.trailer ((j.behind n cursor).take n) cursor).map String.toList, '\n' ∉ line := by
    rw [List.forall_mem_map]
    intro line member
    rcases List.mem_append.mp member with member | member
    · obtain ⟨e, -, of⟩ := List.mem_flatMap.mp member
      exact e.plain line of
    · exact trailer_plain word line member
  have lines : Text.lines (j.output n cursor) =
      (((j.behind n cursor).take n).flatMap JournalEntry.lines).map chomped ++
        (Journal.trailer ((j.behind n cursor).take n) cursor).map chomped := by
    rw [Text.lines, Journal.output, String.toList_ofList, Text.linesOf_unlines plain,
      ← List.map_append, List.map_map, List.map_map]
    rfl
  obtain ⟨next, fold, first⟩ := foldl_collectLine
    ((((j.behind n cursor).take n).flatMap JournalEntry.lines).map chomped) [] none
  rw [lines, List.foldl_append, fold, List.nil_append]
  apply foldl_trailer word
  intro empty
  apply first
  rw [empty]
  rfl

/-- A page that shows entries ends where the entries behind it start. -/
theorem behind_place {shown : List JournalEntry} (some_ : shown ≠ [])
    (here : shown = (j.behind n cursor).take n) :
    ∃ e ∈ j.entries, place shown cursor = some e.cursor ∧
      j.after e.cursor = (j.behind n cursor).drop n := by
  obtain ⟨first, e, last⟩ : ∃ first e, shown = first ++ [e] :=
    ⟨_, _, (List.dropLast_append_getLast some_).symm⟩
  obtain ⟨before, suffix⟩ : ∃ before, j.entries = before ++ j.behind n cursor := by
    cases cursor with
    | none => exact ⟨_, (List.take_append_drop _ _).symm⟩
    | some c =>
      obtain ⟨a, split⟩ :=
        List.dropWhile_suffix (fun e : JournalEntry => e.cursor != c) (l := j.entries)
      obtain ⟨b, more⟩ := List.drop_suffix 1 (j.entries.dropWhile fun e => e.cursor != c)
      exact ⟨a ++ b, by rw [List.append_assoc, Journal.behind, Journal.after, more, split]⟩
  have whole : j.entries = (before ++ first) ++ e :: (j.behind n cursor).drop n := by
    rw [suffix, List.append_assoc]
    congr 1
    have split := (List.take_append_drop n (j.behind n cursor)).symm
    rwa [← here, last, List.append_assoc, List.singleton_append] at split
  refine ⟨e, by simp [whole], by simp [place, last], ?_⟩
  have once := j.distinct
  rw [whole, List.map_append, List.map_cons, List.nodup_append] at once
  have other : ∀ d ∈ before ++ first, (d.cursor != e.cursor) = true := by
    intro d member
    rw [bne_iff_ne]
    exact once.2.2 _ (List.mem_map_of_mem member) _ List.mem_cons_self
  rw [Journal.after, whole, List.dropWhile_append_of_pos other,
    List.dropWhile_cons_of_neg (by simp)]
  rfl

end

section
variable {services : Services} {capture : List String → Except String Finished} {j : Journal}
  {asked : List (String × Json.Value)} {c key : String}

/-- The agent, with logs read by a program. -/
def Services.reading (services : Services) (capture : List String → Except String Finished) :
    Services :=
  { services with journal := Agent.journal capture }

/-- What a request leaves to be shown. -/
def left (j : Journal) (asked : List (String × Json.Value)) : List JournalEntry :=
  j.behind (requestedLines (.object asked)) (text (.object asked) "cursor")

/-- The request starts at an entry of the journal, or without a cursor, and the program
prints what it asks for. -/
structure Asking (j : Journal) (capture : List String → Except String Finished)
    (asked : List (String × Json.Value)) : Prop where
  prints : j.Prints capture (text (.object asked) "unit") (text (.object asked) "priority")
  start : ∀ c ∈ text (.object asked) "cursor", c ∈ j.entries.map JournalEntry.cursor

theorem Asking.word (h : Asking j capture asked) : ∀ c ∈ text (.object asked) "cursor", Word c := by
  intro c at_
  obtain ⟨e, -, rfl⟩ := List.mem_map.mp (h.start c at_)
  exact e.isWord

theorem requestedLines_pos (request : Json.Value) : 1 ≤ requestedLines request := by
  simp [requestedLines, maxLines]

theorem requestedLines_le (request : Json.Value) : requestedLines request ≤ maxLines :=
  Nat.min_le_right _ _

theorem trim_word (h : Word c) : Text.trim c = c := by
  have whole : c = String.ofList ([] ++ (c.toList ++ [])) := by simp
  have first : ∀ d ∈ c.toList.head?, Text.isWhitespace d = false :=
    fun d first => h.2 d (List.mem_of_head? first)
  have last : ∀ d ∈ c.toList.getLast?, Text.isWhitespace d = false := by
    simpa using h.last []
  have trimmed := Text.trimBy_eq (l := []) (r := []) (by simp) (by simp) first last
  rwa [← whole, String.ofList_toList] at trimmed

theorem get_resume (asked : List (String × Json.Value)) (c key : String) :
    (Json.Value.object (resume c asked)).get key =
      if key = "cursor" then some (.string c) else (Json.Value.object asked).get key :=
  lookup_insertKey "cursor" key (.string c) asked

theorem text_resume_cursor (h : Word c) (asked : List (String × Json.Value)) :
    text (.object (resume c asked)) "cursor" = some c := by
  rw [text, get_resume, if_pos rfl]
  simp [Json.Value.asStr, trim_word h, h.1]

theorem text_resume (other : key ≠ "cursor") (c : String) (asked : List (String × Json.Value)) :
    text (.object (resume c asked)) key = text (.object asked) key := by
  rw [text, get_resume, if_neg other, text]

theorem Asking.resume (h : Asking j capture asked) {e : JournalEntry} (member : e ∈ j.entries) :
    Asking j capture (resume e.cursor asked) := by
  refine ⟨?_, ?_⟩
  · rw [text_resume (by decide), text_resume (by decide)]
    exact h.prints
  · rw [text_resume_cursor e.isWord]
    intro c same
    obtain rfl : e.cursor = c := Option.some.inj same
    exact List.mem_map_of_mem member

theorem mapM_asStr (lines : List String) :
    lines.mapM (Json.Value.asStr ∘ Json.Value.string) = some lines := by
  induction lines with
  | nil => rfl
  | cons line lines ih => simp [Json.Value.asStr, ih]

/-- What a caller reads in a reply to `logs`. -/
theorem pageOf_logs {request : Json.Value} {collected : List String} {next : Option String}
    (read : services.journal (text request "unit") (requestedLines request)
      (text request "cursor") (text request "priority") = .ok (collected, next)) :
    pageOf (logs services request) =
      some ⟨collected, next, decide (collected.length < requestedLines request)⟩ := by
  rw [logs, read]
  simp only
  cases next with
  | none =>
    simp [pageOf, Reply.also, Reply.maybe, lookup_insertKey, toJson, asLines, asBool, mapM_asStr,
      Reply.ok]
  | some c =>
    simp [pageOf, Reply.also, Reply.maybe, lookup_insertKey, toJson, asLines, asBool, mapM_asStr,
      Reply.ok, Json.Value.asStr]

/-- The entries that one page is about. -/
def shown (j : Journal) (asked : List (String × Json.Value)) : List JournalEntry :=
  (left j asked).take (requestedLines (.object asked))

/-- The page that answers a request. -/
def page (j : Journal) (asked : List (String × Json.Value)) : Page :=
  let lines := returned ((shown j asked).flatMap JournalEntry.lines)
  ⟨lines, place (shown j asked) (text (.object asked) "cursor"),
    decide (lines.length < requestedLines (.object asked))⟩

theorem pageOf_reading (h : Asking j capture asked) :
    pageOf (logs (services.reading capture) (.object asked)) = some (page j asked) := by
  obtain ⟨finished, printed, ok, stdout⟩ := h.prints (requestedLines (.object asked))
    (text (.object asked) "cursor") (requestedLines_pos _) (requestedLines_le _)
  apply pageOf_logs
  change Agent.journal capture _ _ _ _ = _
  rw [Agent.journal, printed]
  simp only [ok, if_true]
  rw [stdout, read_output h.word]
  rfl

theorem entry_lines_le (entries : List JournalEntry) :
    entries.length ≤ (entries.flatMap JournalEntry.lines).length := by
  induction entries with
  | nil => exact Nat.le_refl _
  | cons e entries ih =>
    have := List.length_pos_iff.mpr e.printed
    rw [List.flatMap_cons, List.length_append, List.length_cons]
    omega

theorem left_split (j : Journal) (asked : List (String × Json.Value)) :
    (left j asked).flatMap JournalEntry.lines = (shown j asked).flatMap JournalEntry.lines ++
      ((left j asked).drop (requestedLines (.object asked))).flatMap JournalEntry.lines := by
  rw [← List.flatMap_append, shown, List.take_append_drop]

theorem page_lines_le (j : Journal) (asked : List (String × Json.Value)) :
    (page j asked).lines.length ≤ ((shown j asked).flatMap JournalEntry.lines).length :=
  returned_length_le _

/-- A page that is not the last shows entries, and its cursor asks for those behind it. -/
theorem page_more (h : Asking j capture asked) (more : (page j asked).eof = false) :
    ∃ c, (page j asked).cursor = some c ∧ Asking j capture (resume c asked) ∧
      left j (resume c asked) = (left j asked).drop (requestedLines (.object asked)) ∧
        (left j (resume c asked)).length < (left j asked).length := by
  have full : requestedLines (.object asked) ≤ (page j asked).lines.length := by
    simpa [page] using more
  have pos := requestedLines_pos (.object asked)
  have room := page_lines_le j asked
  have some_ : shown j asked ≠ [] := by
    intro empty
    rw [empty] at room
    simp at room
    rw [room] at full
    simp at full
    omega
  obtain ⟨e, member, at_, behind⟩ : ∃ e ∈ j.entries, (page j asked).cursor = some e.cursor ∧
      j.after e.cursor = (left j asked).drop (requestedLines (.object asked)) :=
    behind_place some_ rfl
  have next : left j (resume e.cursor asked) =
      (left j asked).drop (requestedLines (.object asked)) := by
    rw [left, text_resume_cursor e.isWord]
    exact behind
  refine ⟨e.cursor, at_, h.resume member, next, ?_⟩
  have nonempty : left j asked ≠ [] := by
    intro empty
    rw [shown, empty, List.take_nil] at some_
    exact some_ rfl
  have := List.length_pos_iff.mpr nonempty
  rw [next, List.length_drop]
  omega

/-- Where nothing is behind a page, its cursor leaves nothing to be shown. -/
theorem page_remaining
    (none_ : (left j asked).drop (requestedLines (.object asked)) = []) :
    j.remaining (page j asked).cursor = [] := by
  have pos := requestedLines_pos (.object asked)
  by_cases empty : shown j asked = []
  · have nothing : left j asked = [] := by
      rw [shown, List.take_eq_nil_iff] at empty
      rcases empty with zero | nothing
      · omega
      · exact nothing
    have at_ : (page j asked).cursor = text (.object asked) "cursor" := by
      simp [page, place, empty]
    rw [at_]
    rw [left] at nothing
    cases cursor : text (.object asked) "cursor" with
    | some c =>
      rw [cursor] at nothing
      exact nothing
    | none =>
      rw [cursor, Journal.behind, List.drop_eq_nil_iff] at nothing
      rw [Journal.remaining, ← List.length_eq_zero_iff]
      omega
  · obtain ⟨e, -, at_, behind⟩ : ∃ e ∈ j.entries, (page j asked).cursor = some e.cursor ∧
        j.after e.cursor = (left j asked).drop (requestedLines (.object asked)) :=
      behind_place empty rfl
    rw [at_, Journal.remaining, behind, none_]

theorem follow_last (h : Asking j capture asked) (last : (page j asked).eof = true) (fuel : Nat) :
    follow (services.reading capture) (fuel + 1) asked = some [page j asked] := by
  rw [follow, pageOf_reading h]
  simp only [last, if_true]

theorem follow_more (h : Asking j capture asked) (more : (page j asked).eof = false)
    (at_ : (page j asked).cursor = some c) (fuel : Nat) :
    follow (services.reading capture) (fuel + 1) asked =
      (follow (services.reading capture) fuel (resume c asked)).map (page j asked :: ·) := by
  rw [follow, pageOf_reading h]
  simp only [more, at_, Bool.false_eq_true, if_false]

/-- Following the cursors comes to an end, on every journal. -/
theorem follow_ends (h : Asking j capture asked) :
    ∃ fuel pages, follow (services.reading capture) fuel asked = some pages := by
  induction size : (left j asked).length using Nat.strong_induction_on generalizing asked with
  | _ size ih =>
    cases eof : (page j asked).eof with
    | true => exact ⟨1, _, follow_last h eof 0⟩
    | false =>
      obtain ⟨c, at_, next, -, less⟩ := page_more h eof
      obtain ⟨fuel, pages, ends⟩ := ih _ (by omega) next rfl
      exact ⟨fuel + 1, _, by rw [follow_more h eof at_, ends]; rfl⟩

/-- The pages of a journal whose lines are all kept are the whole of it. -/
theorem follow_verbatim {fuel : Nat} {pages : List Page} (h : Asking j capture asked)
    (kept : ∀ line ∈ (left j asked).flatMap JournalEntry.lines, Verbatim line)
    (ends : follow (services.reading capture) fuel asked = some pages) :
    pages.flatMap Page.lines = (left j asked).flatMap JournalEntry.lines ∧
      ∀ p ∈ pages, p.eof = true → j.remaining p.cursor = [] := by
  induction fuel generalizing asked pages with
  | zero => cases ends
  | succ fuel ih =>
    have split := left_split j asked
    have whole : (page j asked).lines = (shown j asked).flatMap JournalEntry.lines := by
      apply returned_eq_iff.mpr
      intro line member
      exact kept line (by rw [split]; exact List.mem_append_left _ member)
    cases eof : (page j asked).eof with
    | true =>
      rw [follow_last h eof] at ends
      obtain rfl := Option.some.inj ends
      have short : (page j asked).lines.length < requestedLines (.object asked) := by
        simpa [page] using eof
      have entries := entry_lines_le (shown j asked)
      rw [← whole] at entries
      have all : (left j asked).length < requestedLines (.object asked) := by
        rw [shown, List.length_take] at entries
        omega
      have none_ : (left j asked).drop (requestedLines (.object asked)) = [] :=
        List.drop_of_length_le (by omega)
      refine ⟨by simp [whole, split, none_], ?_⟩
      intro p member _
      obtain rfl := List.mem_singleton.mp member
      exact page_remaining none_
    | false =>
      obtain ⟨c, at_, next, left_, -⟩ := page_more h eof
      rw [follow_more h eof at_, Option.map_eq_some_iff] at ends
      obtain ⟨rest, ends, rfl⟩ := ends
      have others : ∀ line ∈ (left j (resume c asked)).flatMap JournalEntry.lines,
          Verbatim line := by
        rw [left_]
        intro line member
        exact kept line (by rw [split]; exact List.mem_append_right _ member)
      obtain ⟨lines, honest⟩ := ih next others ends
      refine ⟨by rw [List.flatMap_cons, whole, lines, left_, split], ?_⟩
      rw [List.forall_mem_cons]
      exact ⟨fun no => absurd (no.symm.trans eof) (by decide), honest⟩

/-- No page invents lines; and when none is lost, each is kept. -/
theorem follow_bound {fuel : Nat} {pages : List Page} (h : Asking j capture asked)
    (ends : follow (services.reading capture) fuel asked = some pages) :
    (pages.flatMap Page.lines).length ≤ ((left j asked).flatMap JournalEntry.lines).length ∧
      (pages.flatMap Page.lines = (left j asked).flatMap JournalEntry.lines →
        ∀ line ∈ (left j asked).flatMap JournalEntry.lines, Verbatim line) := by
  induction fuel generalizing asked pages with
  | zero => cases ends
  | succ fuel ih =>
    have room := page_lines_le j asked
    rw [left_split]
    cases eof : (page j asked).eof with
    | true =>
      rw [follow_last h eof] at ends
      obtain rfl := Option.some.inj ends
      rw [List.flatMap_singleton, List.length_append]
      refine ⟨by omega, fun same => ?_⟩
      have padded : (page j asked).lines ++ [] = _ := (List.append_nil _).trans same
      obtain ⟨whole, none_⟩ := List.append_inj' padded (by
        have := congrArg List.length same
        rw [List.length_append] at this
        rw [List.length_nil]
        omega)
      rw [← none_, List.append_nil]
      exact returned_eq_iff.mp whole
    | false =>
      obtain ⟨c, at_, next, left_, -⟩ := page_more h eof
      rw [follow_more h eof at_, Option.map_eq_some_iff] at ends
      obtain ⟨rest, ends, rfl⟩ := ends
      obtain ⟨bound, kept⟩ := ih next ends
      rw [left_] at bound kept
      rw [List.flatMap_cons, List.length_append, List.length_append]
      refine ⟨by omega, fun same => ?_⟩
      obtain ⟨whole, others⟩ := List.append_inj' same (by
        have := congrArg List.length same
        rw [List.length_append, List.length_append] at this
        omega)
      rw [List.forall_mem_append]
      exact ⟨returned_eq_iff.mp whole, kept others⟩

/-- Following the cursors loses nothing when every line behind the starting point is one
that is kept. -/
theorem paging_loses_nothing_iff (h : Asking j capture asked) (services : Services) :
    LosesNothing (services.reading capture) j asked ↔
      ∀ line ∈ (j.behind (requestedLines (.object asked))
        (text (.object asked) "cursor")).flatMap JournalEntry.lines, Verbatim line := by
  constructor
  · rintro ⟨fuel, pages, ends, whole, -⟩
    exact (follow_bound h ends).2 whole
  · intro kept
    obtain ⟨fuel, pages, ends⟩ : ∃ fuel pages,
        follow (services.reading capture) fuel asked = some pages := follow_ends h
    obtain ⟨whole, honest⟩ := follow_verbatim h kept ends
    exact ⟨fuel, pages, ends, whole, honest⟩

end

/-- A program that prints a journal, of which it is asked neither unit nor priority. -/
def printer (j : Journal) (arguments : List String) : Except String Finished :=
  let answer (cursor : Option String) (lines : String) : Except String Finished :=
    let n := Nat.ofDigitChars 10 (lines.toList.drop 8) 0
    .ok ⟨"", some 0, j.output n cursor, "", true⟩
  match arguments.drop 3 with
  | [lines] => answer none lines
  | [cursor, lines] => answer (Text.stripPrefix cursor "--after-cursor=") lines
  | _ => .error "unknown arguments"

theorem digits_lines (n : Nat) :
    Nat.ofDigitChars 10 (("--lines=" ++ toString n).toList.drop 8) 0 = n := by
  have eight : "--lines=".toList.length = 8 := by decide
  have digits : (toString n).toList = Nat.toDigits 10 n := by simp [toString, Nat.repr]
  rw [String.toList_append, ← eight, List.drop_left, digits, Nat.ofDigitChars_ten_toDigits]

theorem printer_prints (j : Journal) : j.Prints (printer j) none none := by
  intro n cursor _ _
  have digits := digits_lines n
  refine ⟨⟨"", some 0, j.output n cursor, "", true⟩, ?_, rfl, rfl⟩
  cases cursor with
  | none =>
    change Except.ok _ = _
    rw [digits]
  | some c =>
    have value : Text.stripPrefix ("--after-cursor=" ++ c) "--after-cursor=" = some c :=
      Text.stripPrefix_eq_some.mpr rfl
    change Except.ok _ = _
    rw [digits, value]

/-- A message of two lines, of which the second may be anything. -/
def twoLines (second : String) (plain : '\n' ∉ second.toList) : JournalEntry where
  lines := ["2026-11-19T10:00:00+00:00 node app[7]: state:", second]
  cursor := "s=a;i=1"
  printed := List.cons_ne_nil _ _
  plain := by
    intro line member
    rcases List.mem_cons.mp member with rfl | member
    · decide
    · obtain rfl := List.mem_singleton.mp member
      exact plain
  named := by decide
  word := by simp [Text.isWhitespace]

/-- The journal of one such message. -/
def oneMessage (second : String) (plain : '\n' ∉ second.toList) : Journal where
  entries := [twoLines second plain]
  distinct := List.nodup_singleton _

/-- A request for as many lines as there are by default. -/
def logsRequest : List (String × Json.Value) := [("command", toJson "logs")]

theorem logsRequest_asking (j : Journal) : Asking j (printer j) logsRequest :=
  ⟨printer_prints j, nofun⟩

/-- A message of one line. -/
def oneLine (line cursor : String) (plain : '\n' ∉ line.toList) (named : cursor ≠ "")
    (word : ∀ c ∈ cursor.toList, Text.isWhitespace c = false) : JournalEntry where
  lines := [line]
  cursor := cursor
  printed := List.cons_ne_nil _ _
  plain := fun _ member => List.mem_singleton.mp member ▸ plain
  named := named
  word := word

/-- An indented message between two others, and one before them. -/
def fourMessages : Journal where
  entries := [oneLine "booting" "s=a;i=0" (by decide) (by decide) (by simp [Text.isWhitespace]),
    twoLines "    good" (by decide),
    oneLine "ready" "s=a;i=2" (by decide) (by decide) (by simp [Text.isWhitespace]),
    oneLine "done" "s=a;i=3" (by decide) (by decide) (by simp [Text.isWhitespace])]
  distinct := by decide

/-- Two lines at a time, from behind the first message on. -/
def pagedRequest : List (String × Json.Value) :=
  [("command", toJson "logs"), ("cursor", toJson "s=a;i=0"), ("lines", toJson 2)]

theorem pagedRequest_asking : Asking fourMessages (printer fourMessages) pagedRequest := by
  refine ⟨printer_prints fourMessages, fun c asked => ?_⟩
  have first : c = "s=a;i=0" := by
    have cursor : text (.object pagedRequest) "cursor" = some "s=a;i=0" := by decide +kernel
    rw [cursor] at asked
    exact (Option.some.inj asked).symm
  rw [first]
  decide

theorem paging_loses_nothing_indented :
    LosesNothing (idle.reading (printer fourMessages)) fourMessages pagedRequest := by
  refine (paging_loses_nothing_iff pagedRequest_asking idle).mpr ?_
  have behind : (fourMessages.behind (requestedLines (.object pagedRequest))
      (text (.object pagedRequest) "cursor")).flatMap JournalEntry.lines =
        ["2026-11-19T10:00:00+00:00 node app[7]: state:", "    good", "ready", "done"] := by
    decide +kernel
  rw [behind]
  intro line member
  simp only [List.mem_cons, List.not_mem_nil, or_false] at member
  rcases member with rfl | rfl | rfl | rfl
  all_goals exact ⟨by decide, by decide +kernel, by decide +kernel⟩

/-- The second line of a message is taken for the cursor. -/
theorem paging_loses_line :
    ¬LosesNothing (idle.reading (printer (oneMessage "    -- cursor: none" (by decide))))
      (oneMessage "    -- cursor: none" (by decide)) logsRequest := by
  rintro ⟨fuel, pages, ends, whole, -⟩
  have kept := (follow_bound (logsRequest_asking _) ends).2 whole "    -- cursor: none"
    (List.mem_cons_of_mem _ List.mem_cons_self)
  exact absurd kept.noCursor (by decide +kernel)

end CarbideOS.Agent
