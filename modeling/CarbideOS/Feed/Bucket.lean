import CarbideOS.Lib.Shell

namespace CarbideOS.Feed

/-! The bucket that update feeds are served from. Texts are sequences of bytes. -/

/-- An object, and the digest its publisher recorded on it. -/
structure Object where
  content : String
  recorded : Option String := none
  deriving DecidableEq, Repr

abbrev Bucket := Std.ExtTreeMap String Object

inductive Channel where
  | development | fleet | playground
  deriving DecidableEq, Repr

/-- Where a channel's objects are. The other channels are below the first one. -/
def Channel.path : Channel → String
  | .development => "carbideos"
  | .fleet => "carbideos/fleet"
  | .playground => "carbideos/playground"

def Channel.key (c : Channel) (relative : String) : String := c.path ++ "/" ++ relative

def manifestName : String := "SHA256SUMS"

def signatureName : String := "SHA256SUMS.gpg"

/-- The lines of a text, the last of them with or without a newline. -/
def textLines (text : String) : List String :=
  let pieces := text.toList.splitOnP (· == '\n')
  (if pieces.getLast? = some [] then pieces.dropLast else pieces).map String.ofList

/-- The name in a line of a manifest: what follows a digest and two characters. -/
def listedName (line : String) : String := String.ofList (line.toList.drop 66)

def listedDigest (line : String) : String := String.ofList (line.toList.take 64)

/-- The manifest a channel serves. -/
def Bucket.manifest (b : Bucket) (c : Channel) : Option String :=
  (b[c.key manifestName]?).map Object.content

/-- The manifest that is live in a channel references a name. -/
def Bucket.References (b : Bucket) (c : Channel) (relative : String) : Prop :=
  relative ≠ "" ∧ ∃ manifest, b.manifest c = some manifest ∧
    relative ∈ (textLines manifest).map listedName

/-- What follows the directory of a channel in the key of an object directly under it. -/
def Channel.relative (c : Channel) (key : String) : Option String :=
  (Text.stripPrefix key (c.path ++ "/")).filter fun r => !(r.toList.contains '/') && r ≠ ""

end CarbideOS.Feed
