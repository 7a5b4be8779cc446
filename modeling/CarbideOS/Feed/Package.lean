import CarbideOS.Agent.Node
import CarbideOS.Lib.Shell

namespace CarbideOS.Feed
open CarbideOS.Agent

/-- The programs a publication runs. -/
structure Tools where
  /-- What `zstd -19` makes of an image. -/
  compress : Bytes → Bytes
  /-- What `zstd -dc` writes, as far as it gets. -/
  decompress : Bytes → Bytes
  sha256sum : Bytes → String

/-- The feed's name for a version of an extension. -/
def imageFile (name version : String) : String := name ++ "_" ++ version ++ ".sysext.raw.zst"

/-- The `<n>` of `<name>_<base>-<n>`. Anything else after the dash could be some other
base's version, so it is never treated as a revision. -/
def revisionOf (file name version : String) : Option String :=
  let revision := Shell.withoutSuffix (Shell.withoutPrefix file (name ++ "_" ++ version ++ "-"))
    ".sysext.raw.zst"
  if revision.isEmpty || Text.startsWith revision "0" || !(revision.toList.all Char.isDigit) then
    none
  else some revision

/-- The revisions the shell finds by their pattern, with the files they are in. -/
def revisions (feed : Dir) (name version : String) : List (String × String) :=
  (feed.keys.filter (Shell.glob (name ++ "_" ++ version ++ "-") [".sysext.raw.zst"])).filterMap
    fun file => (revisionOf file name version).map fun revision => (revision, file)

/-- The greatest of some revisions and a number. A test on a number that the shell
cannot hold fails. -/
def newestOf (found : List String) (newest : Nat) : Nat :=
  found.foldl (fun newest revision =>
    match Text.parseUnsigned 63 revision with
    | some n => if newest < n then n else newest
    | none => newest) newest

/-- `$((n + 1))`, in the 64 bits the shell counts with. -/
def increment (n : Nat) : String := toString (Int.bmod (n + 1) (2 ^ 64))

section
variable (t : Tools) (name version : String)

def feedDigest (content : Bytes) : String := t.sha256sum (t.decompress content)

/-- The revision a changed image is published as: the newest again if that holds the
very image, else the next one. -/
def nextRevision (image : Bytes) (feed : Dir) : String × Dir :=
  let newest := newestOf ((revisions feed name version).map Prod.fst) 0
  let file := imageFile name (version ++ "-" ++ toString newest)
  if 0 < newest ∧ feed[file]?.map (feedDigest t) = some (t.sha256sum image) then
    (toString newest, feed)
  else
    let revision := increment newest
    (revision, feed.insert (imageFile name (version ++ "-" ++ revision)) (t.compress image))

/-- Nodes only take the newest revision, and the bucket is capped. -/
def retire (newest : String) (feed : Dir) : Dir :=
  feed.eraseAll (((revisions feed name version).filter fun r => r.1 != newest).map Prod.snd)

/-- Publish an image of an extension for a base. The unrevised image is never touched:
agents sealed into older bases ask for exactly that name. -/
def publishExtension (image : Bytes) (feed : Dir) : Dir :=
  let feed := feed.erase (name ++ "_" ++ version ++ ".sysext.raw")
  match feed[imageFile name version]? with
  | none => feed.insert (imageFile name version) (t.compress image)
  | some first =>
    if feedDigest t first = t.sha256sum image then feed
    else
      let (newest, feed) := nextRevision t name version image feed
      retire name version newest feed

end

/-- The versions of an extension that the names of a feed offer. -/
def offered (feed : Dir) (name : String) : List String :=
  feed.keys.filterMap fun file =>
    (Text.stripPrefix file (name ++ "_")).bind fun rest => Text.stripSuffix rest ".sysext.raw.zst"

/-- A publication of an image for a base. -/
structure Publication where
  version : String
  image : Bytes
  deriving DecidableEq, Repr

def publishAll (t : Tools) (name : String) (runs : List Publication) (feed : Dir) : Dir :=
  runs.foldl (fun feed r => publishExtension t name r.version r.image feed) feed

end CarbideOS.Feed
