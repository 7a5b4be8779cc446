import CarbideOS.Agent.Api
import CarbideOS.Lib.Lines

namespace CarbideOS.Agent

def journalArgs (unit : Option String) (lines : Nat) (cursor priority : Option String) :
    List String :=
  ["--no-pager", "--output=short-iso", "--show-cursor"] ++
    -- A cursor already fixes the start, and the lines are counted from there.
    (match cursor with
      | some cursor => ["--after-cursor=" ++ cursor, "--lines=" ++ toString lines]
      | none => ["--lines=" ++ toString lines]) ++
    (unit.map fun unit => "--unit=" ++ unit).toList ++
    (priority.map fun priority => "--priority=" ++ priority).toList

/-- One more line of the output, after some lines of the journal and the cursor so far. -/
def collectLine (read : List String × Option String) (line : String) :
    List String × Option String :=
  match Text.stripPrefix (Text.trim line) "-- cursor:" with
  | some value => (read.1, some (Text.trim value))
  | none =>
    if Text.startsWith line "-- No entries" then read else (read.1 ++ [line], read.2)

/-- The lines of the journal that a program printed, and where they end. -/
def journal (capture : List String → Except String Finished) (unit : Option String) (lines : Nat)
    (cursor priority : Option String) : Except String (List String × Option String) :=
  match capture (journalArgs unit lines cursor priority) with
  | .error error => .error error
  | .ok finished =>
    if finished.ok then .ok ((Text.lines finished.stdout).foldl collectLine ([], none))
    else .error (Text.trim finished.stderr)

/-- The fields of a reply to `logs`, as a caller reads them. -/
structure Page where
  lines : List String
  cursor : Option String
  eof : Bool
  deriving DecidableEq, Repr

/-- The texts of an array. -/
def asLines : Json.Value → Option (List String)
  | .array items => items.mapM Json.Value.asStr
  | _ => none

def asBool : Json.Value → Option Bool
  | .bool b => some b
  | _ => none

def pageOf (r : Reply) : Option Page := do
  let lines ← (r.data.lookup "lines").bind asLines
  let eof ← (r.data.lookup "eof").bind asBool
  pure ⟨lines, (r.data.lookup "cursor").bind Json.Value.asStr, eof⟩

/-- The members of a request, with the cursor that a reply returned. -/
def resume (cursor : String) (asked : List (String × Json.Value)) : List (String × Json.Value) :=
  insertKey "cursor" (toJson cursor) asked

/-- The pages that a caller sees who follows the cursors, until one says that it is the
last. Without a cursor, or with a failure, there is nothing to follow. -/
def follow (services : Services) : Nat → List (String × Json.Value) → Option (List Page)
  | 0, _ => none
  | fuel + 1, asked =>
    match pageOf (logs services (.object asked)) with
    | none => none
    | some page =>
      if page.eof then some [page]
      else match page.cursor with
        | none => none
        | some cursor => (follow services fuel (resume cursor asked)).map (page :: ·)

/-- An entry of the journal: the lines that it is printed as, and a name for its place. -/
structure JournalEntry where
  lines : List String
  cursor : String
  printed : lines ≠ []
  plain : ∀ line ∈ lines, '\n' ∉ line.toList
  named : cursor ≠ ""
  word : ∀ c ∈ cursor.toList, Text.isWhitespace c = false

/-- What a reader may see of the journal. -/
structure Journal where
  entries : List JournalEntry
  distinct : (entries.map JournalEntry.cursor).Nodup

namespace Journal

/-- The entries behind a place. -/
def after (j : Journal) (cursor : String) : List JournalEntry :=
  (j.entries.dropWhile fun e => e.cursor != cursor).drop 1

/-- The entries from the starting point on: behind the cursor, or else the last ones. -/
def behind (j : Journal) (n : Nat) : Option String → List JournalEntry
  | some cursor => j.after cursor
  | none => j.entries.drop (j.entries.length - n)

/-- The entries that no page with this cursor has shown. -/
def remaining (j : Journal) : Option String → List JournalEntry
  | some cursor => j.after cursor
  | none => j.entries

/-- What is printed behind the entries: that there are none, and where they end. -/
def trailer (shown : List JournalEntry) (cursor : Option String) : List String :=
  (if shown.isEmpty then ["-- No entries --"] else []) ++
    (((shown.getLast?.map JournalEntry.cursor).or cursor).map fun cursor =>
      "-- cursor: " ++ cursor).toList

/-- The output of a reader that is asked for some entries. -/
def output (j : Journal) (n : Nat) (cursor : Option String) : String :=
  let shown := (j.behind n cursor).take n
  String.ofList (Text.unlines
    ((shown.flatMap JournalEntry.lines ++ trailer shown cursor).map String.toList))

/-- The program prints the journal, for a unit and a priority. -/
def Prints (j : Journal) (capture : List String → Except String Finished)
    (unit priority : Option String) : Prop :=
  ∀ n cursor, 1 ≤ n → n ≤ maxLines →
    ∃ finished, capture (journalArgs unit n cursor priority) = .ok finished ∧
      finished.ok = true ∧ finished.stdout = j.output n cursor

end Journal
end CarbideOS.Agent
