import CarbideOS.Feed.Bucket

namespace CarbideOS.Feed

/-- What the programs around a prune do with texts they were not meant for. -/
structure Programs where
  /-- `grep -Fxq` on the names to keep, called with a name that reads as options: whether
  it finds something, and how many of the lines that are still to come it reads itself. -/
  grepOption : String → List String → List String → Bool × Nat
  /-- Whether the shell can add a size to the total. -/
  adds : String → Bool

/-- The artifacts a signed manifest offers, with the manifest and its signature. -/
def keep (manifest : String) : List String :=
  manifestName :: signatureName :: (textLines manifest).map listedName

/-- The objects directly under a channel's directory, as lines of name and size. -/
def present (c : Channel) (b : Bucket) : List String :=
  ((b.toList.filterMap fun p => (c.relative p.1).map fun relative =>
      relative ++ "\t" ++ toString p.2.content.length).flatMap fun entry =>
    (entry.toList.splitOnP (· == '\n')).map String.ofList).insertionSort (· ≤ ·)

/-- `IFS=<tab> read -r relative size`. Tabs at the ends are dropped. -/
def readFields (line : String) : String × String :=
  let rest := line.toList.dropWhile (· == '\t')
  (String.ofList (rest.takeWhile (· ≠ '\t')),
    String.ofList (((rest.dropWhile (· ≠ '\t')).dropWhile (· == '\t')).rdropWhile (· == '\t')))

/-- Whether a name is to be kept, and how many of the following lines are lost over it. -/
def kept (p : Programs) (names : List String) (relative : String) (rest : List String) :
    Bool × Nat :=
  if Text.startsWith relative "-" then p.grepOption relative names rest
  else (names.contains relative, 0)

/-- The names that are not to be kept. A size the shell cannot add ends the run. -/
def staleOf (p : Programs) (names : List String) : Nat → List String → Option (List String)
  | _, [] => some []
  | lost + 1, _ :: rest => staleOf p names lost rest
  | 0, line :: rest =>
    let (relative, size) := readFields line
    let (found, lost) := kept p names relative rest
    if found then staleOf p names lost rest
    else if p.adds size then (staleOf p names lost rest).map (relative :: ·)
    else none

/-- The keys an applied prune goes on to delete, one after the other. -/
def prune (p : Programs) (c : Channel) (manifest : String) (b : Bucket) : List String :=
  ((staleOf p (keep manifest) 0 (present c b)).getD []).map c.key

/-- The bucket once so many of the deletions were made. -/
def Bucket.deleted (b : Bucket) (keys : List String) (done : Nat) : Bucket :=
  (keys.take done).foldl (fun b key => b.erase key) b

end CarbideOS.Feed
