import CarbideOS.Feed.Bucket

namespace CarbideOS.Feed

/-- The programs that vouch for a feed. -/
structure Vouching where
  sha256sum : String → String
  /-- `gpg --verify` of a signature and a manifest under the channel's key. -/
  verify : String → String → Bool
  /-- The names and digests that `sha256sum --check --strict` reads in a manifest, if it knows
  the form of each line. -/
  sums : String → Option (List (String × String))

/-- A directory: the regular files in it, whose names a manifest can hold as they are, and what
any other path leads to, through a link or into a directory below. -/
structure LocalFeed where
  files : Std.ExtTreeMap String String
  elsewhere : String → Option String := fun _ => none
  tidy : ∀ name ∈ files, (name.toList.all fun d => ' ' ≤ d && d != '\\' && d != '/') = true

def LocalFeed.read (feed : LocalFeed) (path : String) : Option String :=
  (feed.files[path]?).or (feed.elsewhere path)

def LocalFeed.content (feed : LocalFeed) (path : String) : String := (feed.read path).getD ""

/-- The files that are neither the manifest nor its signature. -/
def LocalFeed.payloads (feed : LocalFeed) : List String :=
  feed.files.keys.filter fun name => name != manifestName && name != signatureName

/-- The most the bucket may hold. -/
def limit : Nat := 5000000000

/-- What the names of a channel's base artifacts start with. -/
def Channel.artifactPrefix : Channel → String
  | .development => "carbideos"
  | .fleet => "carbideos-fleet"
  | .playground => "carbideos-playground"

/-- The digest of the first line of a manifest that names a file. -/
def manifestHash (file manifest : String) : String :=
  (((textLines manifest).find? fun line => listedName line == file).map listedDigest).getD ""

section
variable (v : Vouching) (c : Channel) (feed : LocalFeed) (answered : String → Bool)

/-- A content has the digest of a manifest's line. -/
def hasDigest (content digest : String) : Bool :=
  Text.eqIgnoreAsciiCase (v.sha256sum content) digest

/-- `sha256sum --check --strict` -/
def checkSums (manifest : String) : Bool :=
  (v.sums manifest).any fun entries => !entries.isEmpty && entries.all fun (name, digest) =>
    (feed.read name).any fun content => hasDigest v content digest

/-- Extension images carry no channel in their name; everything else must. -/
def publishable (name : String) : Bool :=
  name == manifestName || name == signatureName || Text.endsWith name ".sysext.raw" ||
    Text.endsWith name ".sysext.raw.zst" ||
    [".efi", ".root.raw.zst", ".verity.raw.zst", ".verity-sig.raw.zst"].any fun finish =>
      Shell.glob (c.artifactPrefix ++ "_") [finish] name

def totalSize (b : Bucket) : Nat := (b.toList.map fun p => p.2.content.length).sum

/-- The size of an object in a listing of the bucket, nothing counting as 0. -/
def existing (remote : Bucket) (relative : String) : Nat :=
  ((remote[c.key relative]?).map fun o => o.content.length).getD 0

/-- The manifest in the bucket, where it can be read and the signature there is its. -/
def remoteManifest (remote : Bucket) : Option String :=
  (remote.manifest c).filter fun manifest =>
    answered (c.key manifestName) && answered (c.key signatureName) &&
      (remote[c.key signatureName]?).any fun o => v.verify o.content manifest

/-- The bucket stays within its limit once the local files are in it. -/
def fits (remote : Bucket) : Bool :=
  let files := feed.files.toList
  totalSize remote ≤ limit &&
    totalSize remote - (files.map fun p => existing c remote p.1).sum +
      (files.map fun p => p.2.length).sum ≤ limit

/-- The checks before the first upload. -/
def accepted (remote : Bucket) : Bool :=
  (feed.read manifestName).isSome && (feed.read signatureName).isSome &&
    v.verify (feed.content signatureName) (feed.content manifestName) &&
    checkSums v feed (feed.content manifestName) && !feed.files.isEmpty &&
    feed.files.keys.all (publishable c) && fits c feed remote

/-- What is uploaded for a name, with the digest the manifest gives it. -/
def localObject (relative : String) : Object :=
  let hash := manifestHash relative (feed.content manifestName)
  ⟨feed.content relative, if hash = "" then none else some hash⟩

def upload (relative : String) (b : Bucket) : Bucket :=
  b.insert (c.key relative) (localObject feed relative)

/-- A payload that is in the bucket with the size and digest it has here. The digest
recorded on the object comes before that of the remote manifest. -/
def unchangedPayload (remote b : Bucket) (relative : String) : Bool :=
  let localHash := manifestHash relative (feed.content manifestName)
  let recorded := if answered (c.key relative) then
      ((b[c.key relative]?).bind Object.recorded).getD ""
    else ""
  let recorded := if recorded = "None" then "" else recorded
  let remoteHash := if recorded = "" then
      ((remoteManifest v c answered remote).map (manifestHash relative)).getD ""
    else recorded
  existing c remote relative == (feed.content relative).length && localHash != "" &&
    remoteHash != "" && localHash == remoteHash

/-- The payloads that get uploaded, and whether none was refused. -/
def uploadPayloads (remote : Bucket) : List String → Bucket → List String × Bool
  | [], _ => ([], true)
  | relative :: rest, b =>
    if unchangedPayload v c feed answered remote b relative then uploadPayloads remote rest b
    else if existing c remote relative ≠ 0 then ([], false)
    else
      let more := uploadPayloads remote rest (upload c feed relative b)
      (relative :: more.1, more.2)

/-- The uploads of a publication in order: the payloads, the detached signature, and
the manifest last, as far as they are regular files. -/
def publish (remote : Bucket) : List String :=
  if accepted v c feed remote then
    let payloads := uploadPayloads v c feed answered remote feed.payloads remote
    if payloads.2 then
      payloads.1 ++ [signatureName, manifestName].filter fun name => feed.files.contains name
    else payloads.1
  else []

/-- The bucket once so many of the uploads were made. -/
def published (remote : Bucket) (done : Nat) : Bucket :=
  ((publish v c feed answered remote).take done).foldl (fun b relative => upload c feed relative b)
    remote

end
end CarbideOS.Feed
