import CarbideOS.Feed.Publish
import CarbideOS.Proofs.Pruned

namespace CarbideOS.Feed

/-- A manifest lists a payload with a digest. -/
def Lists (v : Vouching) (manifest name digest : String) : Prop :=
  ∃ entries, v.sums manifest = some entries ∧ (name, digest) ∈ entries ∧
    name ≠ manifestName ∧ name ≠ signatureName

/-- Every payload a manifest lists is there with its digest. -/
def Present (v : Vouching) (c : Channel) (manifest : String) (b : Bucket) : Prop :=
  ∀ name digest, Lists v manifest name digest →
    ∃ o, b[c.key name]? = some o ∧ hasDigest v o.content digest = true

/-- A channel serves a manifest, its signature and all it lists. -/
def Consistent (v : Vouching) (c : Channel) (b : Bucket) : Prop :=
  ∃ manifest signature, b.manifest c = some manifest ∧
    (b[c.key signatureName]?).map Object.content = some signature ∧
    v.verify signature manifest = true ∧ Present v c manifest b

section
variable {v : Vouching} {c : Channel} {feed : LocalFeed} {answered : String → Bool}
  {remote b b' : Bucket} {names : List String} {name manifest : String}

theorem hasDigest_trans {x y d e : String} (hx : hasDigest v x d = true)
    (hy : hasDigest v y d = true)
    (he : hasDigest v y e = true) : hasDigest v x e = true := by
  simp only [hasDigest, Text.eqIgnoreAsciiCase, beq_iff_eq] at *
  rw [hx, ← hy, he]

theorem getElem?_upload {r s : String} :
    (upload c feed r b)[c.key s]? = if s = r then some (localObject feed r) else b[c.key s]? := by
  rw [upload, Std.ExtTreeMap.getElem?_insert]
  simp only [Std.LawfulEqCmp.compare_eq_iff_eq, key_inj, eq_comm (a := r)]

theorem getElem?_uploads :
    (names.foldl (fun b r => upload c feed r b) b)[c.key name]? =
      if name ∈ names then some (localObject feed name) else b[c.key name]? := by
  induction names generalizing b with
  | nil => simp
  | cons r rest ih =>
    rw [List.foldl_cons, ih, getElem?_upload]
    by_cases there : name ∈ rest
    · simp [there]
    · by_cases same : name = r
      · simp [same]
      · simp [there, same]

/-- Uploads leave every other key alone. -/
theorem getElem?_uploads_of_ne {key : String} (other : ∀ r ∈ names, key ≠ c.key r) :
    (names.foldl (fun b r => upload c feed r b) b)[key]? = b[key]? := by
  induction names generalizing b with
  | nil => rfl
  | cons r rest ih =>
    rw [List.foldl_cons, ih fun s hs => other s (List.mem_cons_of_mem _ hs), upload,
      Std.ExtTreeMap.getElem?_insert]
    have apart := other r List.mem_cons_self
    simp only [Std.LawfulEqCmp.compare_eq_iff_eq]
    rw [if_neg fun same => apart same.symm]

theorem unchangedPayload_congr (h : b[c.key name]? = b'[c.key name]?) :
    unchangedPayload v c feed answered remote b name =
      unchangedPayload v c feed answered remote b' name := by
  simp only [unchangedPayload, h]

theorem mem_payloads : name ∈ feed.payloads ↔
    name ∈ feed.files ∧ name ≠ manifestName ∧ name ≠ signatureName := by
  simp [LocalFeed.payloads, Std.ExtTreeMap.mem_keys]

end

section
variable (v : Vouching) (c : Channel) (feed : LocalFeed) (answered : String → Bool)
  (remote : Bucket)

/-- A payload the bucket has as it is here, going by the digests on record. -/
def unchanged (name : String) : Bool := unchangedPayload v c feed answered remote remote name

/-- A payload that would have to replace another. -/
def refused (name : String) : Bool :=
  !unchanged v c feed answered remote name && existing c remote name != 0

/-- The payloads before the first refused one that the bucket lacks. -/
def pending : List String :=
  (feed.payloads.takeWhile fun name => !refused v c feed answered remote name).filter
    fun name => !unchanged v c feed answered remote name

/-- No payload is refused. -/
def complete : Bool := feed.payloads.all fun name => !refused v c feed answered remote name

end

section
variable {v : Vouching} {c : Channel} {feed : LocalFeed} {answered : String → Bool}
  {remote b : Bucket} {names : List String} {name manifest : String} {k : Nat}

/-- The payloads are judged by the bucket as it was listed. -/
theorem uploadPayloads_eq (nodup : names.Nodup)
    (same : ∀ r ∈ names, b[c.key r]? = remote[c.key r]?) :
    uploadPayloads v c feed answered remote names b =
      ((names.takeWhile fun r => !refused v c feed answered remote r).filter
        fun r => !unchanged v c feed answered remote r,
       names.all fun r => !refused v c feed answered remote r) := by
  induction names generalizing b with
  | nil => rfl
  | cons r rest ih =>
    obtain ⟨fresh, nodup⟩ := List.nodup_cons.mp nodup
    have here : unchangedPayload v c feed answered remote b r =
        unchangedPayload v c feed answered remote remote r :=
      unchangedPayload_congr (same r List.mem_cons_self)
    have rest_same : ∀ s ∈ rest, b[c.key s]? = remote[c.key s]? :=
      fun s hs => same s (List.mem_cons_of_mem _ hs)
    simp only [uploadPayloads, here]
    cases hu : unchangedPayload v c feed answered remote remote r with
    | true => simp [ih nodup rest_same, refused, unchanged, hu]
    | false =>
      by_cases absent : existing c remote r = 0
      · have uploaded : ∀ s ∈ rest, (upload c feed r b)[c.key s]? = remote[c.key s]? := by
          intro s hs
          have other : s ≠ r := fun again => fresh (again ▸ hs)
          rw [getElem?_upload, if_neg other, rest_same s hs]
        simp [ih nodup uploaded, refused, unchanged, hu, absent]
      · simp [refused, unchanged, hu, absent]

theorem payloads_nodup : feed.payloads.Nodup :=
  List.Nodup.filter _ Std.ExtTreeMap.nodup_keys

theorem publish_eq : publish v c feed answered remote =
    if accepted v c feed remote then
      pending v c feed answered remote ++
        if complete v c feed answered remote then
          [signatureName, manifestName].filter fun name => feed.files.contains name
        else []
    else [] := by
  rw [publish, uploadPayloads_eq payloads_nodup fun _ _ => rfl]
  cases accepted v c feed remote with
  | false => rfl
  | true =>
    simp only [if_true]
    change (if complete v c feed answered remote then _ else _) = _
    cases complete v c feed answered remote with
    | true => rfl
    | false => exact (List.append_nil _).symm

theorem mem_pending (h : name ∈ pending v c feed answered remote) : name ∈ feed.payloads ∧
    existing c remote name = 0 := by
  obtain ⟨there, changed⟩ := List.mem_filter.mp h
  have free := List.mem_takeWhile_imp there
  simp only [refused, Bool.not_and, Bool.not_not, Bool.or_eq_true] at free
  refine ⟨(List.takeWhile_sublist _).mem there, ?_⟩
  rcases free with same | absent
  · rw [same] at changed
    cases changed
  · simpa using absent

/-- A name that is to be uploaded as a payload is neither of the two others. -/
theorem pending_ne (h : name ∈ pending v c feed answered remote) :
    name ≠ manifestName ∧ name ≠ signatureName :=
  (mem_payloads.mp (mem_pending h).1).2

/-- Just these payloads have been uploaded after so many uploads. -/
theorem payload_uploaded_iff (ok : accepted v c feed remote = true)
    (other : name ≠ manifestName ∧ name ≠ signatureName) :
    name ∈ (publish v c feed answered remote).take k ↔
      name ∈ (pending v c feed answered remote).take k := by
  rw [publish_eq, if_pos ok, List.take_append, List.mem_append, or_iff_left]
  intro last
  have last := List.mem_of_mem_take last
  split at last
  · have last := List.mem_of_mem_filter last
    simp only [List.mem_cons, List.not_mem_nil, or_false] at last
    exact last.elim other.2 other.1
  · cases last

/-- The signature and the manifest come after all payloads. -/
theorem uploaded_last (ok : accepted v c feed remote = true)
    (last : name = manifestName ∨ name = signatureName)
    (there : name ∈ (publish v c feed answered remote).take k) :
    complete v c feed answered remote = true ∧ name ∈ feed.files ∧
      (pending v c feed answered remote).length < k := by
  rw [publish_eq, if_pos ok, List.take_append, List.mem_append] at there
  rcases there with early | late
  · obtain ⟨notManifest, notSignature⟩ := pending_ne (List.mem_of_mem_take early)
    exact absurd last (not_or.mpr ⟨notManifest, notSignature⟩)
  · split at late
    · rename_i whole
      obtain ⟨-, file⟩ := List.mem_filter.mp (List.mem_of_mem_take late)
      refine ⟨whole, by simpa using file, ?_⟩
      by_contra short
      rw [Nat.sub_eq_zero_of_le (not_lt.mp short), List.take_zero] at late
      cases late
    · simp at late

/-- What a local manifest lists is here with its digest. -/
theorem checkSums_lists {digest : String} (ok : checkSums v feed manifest = true)
    (h : Lists v manifest name digest) :
    hasDigest v (feed.content name) digest = true := by
  obtain ⟨entries, read, member, -⟩ := h
  rw [checkSums, read, Option.any_some, Bool.and_eq_true, List.all_eq_true] at ok
  have here := ok.2 (name, digest) member
  cases found : feed.read name with
  | none =>
    simp [found] at here
  | some content =>
    rw [LocalFeed.content, found]
    simpa [found] using here

theorem getElem?_published : (published v c feed answered remote k)[c.key name]? =
    if name ∈ (publish v c feed answered remote).take k then some (localObject feed name)
    else remote[c.key name]? :=
  getElem?_uploads

end

section
variable (v : Vouching) (c : Channel) (feed : LocalFeed) (answered : String → Bool)
  (remote : Bucket)
  (k : Nat)

/-- So many uploads include the manifest. -/
def Activated : Prop := manifestName ∈ (publish v c feed answered remote).take k

/-- So many uploads include the signature. -/
def Signed : Prop := signatureName ∈ (publish v c feed answered remote).take k

/-- What replaces an empty payload has the digest that the live manifest lists. -/
def Spared : Prop := ∀ live, remote.manifest c = some live →
  ∀ name ∈ (pending v c feed answered remote).take k, ∀ digest, Lists v live name digest →
    hasDigest v (feed.content name) digest = true

/-- The payloads that the new manifest lists and that are taken for unchanged, or are no regular
files of the feed, are in the bucket as it lists them. -/
def Kept : Prop := ∀ name digest, Lists v (feed.content manifestName) name digest →
  (name ∈ feed.payloads → unchanged v c feed answered remote name = true) →
    ∃ o, remote[c.key name]? = some o ∧ hasDigest v o.content digest = true

/-- A signature vouches for the manifest that is still live. -/
def Vouches : Prop := ∀ live, remote.manifest c = some live →
  v.verify (feed.content signatureName) live = true

/-- The signature that is still live vouches for the new manifest. -/
def Carries : Prop := ∀ o, remote[c.key signatureName]? = some o →
  v.verify o.content (feed.content manifestName) = true

/-- So many uploads leave a channel that nodes can use. -/
def Harmless : Prop := accepted v c feed remote = true →
  (Activated v c feed answered remote k → Kept v c feed answered remote ∧
    (¬ Signed v c feed answered remote k → Carries v c feed remote)) ∧
  (¬ Activated v c feed answered remote k → Spared v c feed answered remote k ∧
    (Signed v c feed answered remote k → Vouches v c feed remote))

end

section
variable {v : Vouching} {c : Channel} {feed : LocalFeed} {answered : String → Bool}
  {remote : Bucket} {k : Nat}

theorem accepted_sums (ok : accepted v c feed remote = true) :
    checkSums v feed (feed.content manifestName) = true := by
  simp only [accepted, Bool.and_eq_true] at ok
  exact ok.1.1.1.2

theorem accepted_verified (ok : accepted v c feed remote = true) :
    v.verify (feed.content signatureName) (feed.content manifestName) = true := by
  simp only [accepted, Bool.and_eq_true] at ok
  exact ok.1.1.1.1.2

/-- When the manifest goes live, the payloads that were not taken for unchanged are there. -/
theorem activated_uploads {name : String} (ok : accepted v c feed remote = true)
    (active : Activated v c feed answered remote k) (payload : name ∈ feed.payloads) :
    name ∈ (publish v c feed answered remote).take k ↔
      unchanged v c feed answered remote name = false := by
  obtain ⟨whole, -, long⟩ := uploaded_last ok (Or.inl rfl) active
  have reached : feed.payloads.takeWhile (fun name => !refused v c feed answered remote name) =
      feed.payloads := List.takeWhile_eq_self_iff.mpr fun name hn =>
    List.all_eq_true.mp whole name hn
  rw [payload_uploaded_iff ok (mem_payloads.mp payload).2, List.take_of_length_le (by omega)]
  simp [pending, reached, payload]

/-- Once the manifest is live, what it lists is there if what was not uploaded is. -/
theorem present_iff_kept (ok : accepted v c feed remote = true)
    (active : Activated v c feed answered remote k) :
    Present v c (feed.content manifestName) (published v c feed answered remote k) ↔
      Kept v c feed answered remote := by
  constructor
  · intro present name digest listed same
    obtain ⟨o, there, good⟩ := present name digest listed
    refine ⟨o, ?_, good⟩
    rw [getElem?_published, if_neg] at there
    · exact there
    · intro uploaded
      obtain ⟨-, -, -, other⟩ := listed
      have early := List.mem_of_mem_take ((payload_uploaded_iff ok other).mp uploaded)
      have payload := (mem_pending early).1
      rw [activated_uploads ok active payload, same payload] at uploaded
      cases uploaded
  · intro kept name digest listed
    by_cases changed : name ∈ feed.payloads ∧ unchanged v c feed answered remote name = false
    · refine ⟨localObject feed name, ?_, checkSums_lists (accepted_sums ok) listed⟩
      rw [getElem?_published, if_pos ((activated_uploads ok active changed.1).mpr changed.2)]
    · have same : name ∈ feed.payloads → unchanged v c feed answered remote name = true := by
        simpa using changed
      obtain ⟨o, there, good⟩ := kept name digest listed same
      refine ⟨o, ?_, good⟩
      rw [getElem?_published, if_neg, there]
      intro uploaded
      obtain ⟨-, -, -, other⟩ := listed
      have early := List.mem_of_mem_take ((payload_uploaded_iff ok other).mp uploaded)
      have payload := (mem_pending early).1
      rw [activated_uploads ok active payload, same payload] at uploaded
      cases uploaded

/-- While the old manifest is live, what it lists is there if empty payloads are spared. -/
theorem present_iff_spared {live : String} (served : remote.manifest c = some live)
    (present : Present v c live remote) (ok : accepted v c feed remote = true) :
    Present v c live (published v c feed answered remote k) ↔
      Spared v c feed answered remote k := by
  have taken : ∀ {name digest}, Lists v live name digest →
      (name ∈ (publish v c feed answered remote).take k ↔
        name ∈ (pending v c feed answered remote).take k) := by
    rintro name digest ⟨-, -, -, other⟩
    exact payload_uploaded_iff ok other
  constructor
  · intro still live' served' name hn digest listed
    obtain rfl : live = live' := Option.some.inj (served.symm.trans served')
    obtain ⟨o, there, good⟩ := still name digest listed
    rw [getElem?_published, if_pos ((taken listed).mpr hn)] at there
    obtain rfl := Option.some.inj there
    exact good
  · intro spared name digest listed
    by_cases hn : name ∈ (pending v c feed answered remote).take k
    · refine ⟨localObject feed name, ?_, spared live served name hn digest listed⟩
      rw [getElem?_published, if_pos ((taken listed).mpr hn)]
    · rw [getElem?_published, if_neg fun there => hn ((taken listed).mp there)]
      exact present name digest listed

/-- The manifest that a channel serves after so many uploads. -/
theorem published_manifest : (published v c feed answered remote k).manifest c =
    if manifestName ∈ (publish v c feed answered remote).take k then
      some (feed.content manifestName)
    else remote.manifest c := by
  rw [Bucket.manifest, getElem?_published]
  split <;> rfl

theorem published_signature :
    ((published v c feed answered remote k)[c.key signatureName]?).map Object.content =
      if signatureName ∈ (publish v c feed answered remote).take k then
        some (feed.content signatureName)
      else (remote[c.key signatureName]?).map Object.content := by
  rw [getElem?_published]
  split <;> rfl

/-- What a channel serves is known by its manifest and its signature. -/
theorem consistent_iff {b : Bucket} {manifest signature : String}
    (served : b.manifest c = some manifest)
    (signed : (b[c.key signatureName]?).map Object.content = some signature) :
    Consistent v c b ↔ Present v c manifest b ∧ v.verify signature manifest = true := by
  constructor
  · rintro ⟨m, s, hm, hs, verifies, present⟩
    obtain rfl := Option.some.inj (served.symm.trans hm)
    obtain rfl := Option.some.inj (signed.symm.trans hs)
    exact ⟨present, verifies⟩
  · rintro ⟨present, verifies⟩
    exact ⟨manifest, signature, served, signed, verifies, present⟩

theorem consistent_iff_harmless (start : Consistent v c remote)
    (ok : accepted v c feed remote = true) :
    Consistent v c (published v c feed answered remote k) ↔
      Harmless v c feed answered remote k := by
  obtain ⟨live, signature, served, vouched, verifies, present⟩ := start
  have manifest_now := @published_manifest v c feed answered remote k
  have signature_now := @published_signature v c feed answered remote k
  have carries : Carries v c feed remote ↔
      v.verify signature (feed.content manifestName) = true := by
    obtain ⟨o, there, rfl⟩ := Option.map_eq_some_iff.mp vouched
    simp [Carries, there]
  have vouches : Vouches v c feed remote ↔ v.verify (feed.content signatureName) live = true := by
    simp [Vouches, served]
  by_cases active : Activated v c feed answered remote k
  · have uploaded : manifestName ∈ (publish v c feed answered remote).take k := active
    rw [if_pos uploaded] at manifest_now
    by_cases signed : Signed v c feed answered remote k
    · have along : signatureName ∈ (publish v c feed answered remote).take k := signed
      rw [if_pos along] at signature_now
      rw [consistent_iff manifest_now signature_now, present_iff_kept ok active,
        accepted_verified ok]
      simp [Harmless, ok, active, signed]
    · have alone : signatureName ∉ (publish v c feed answered remote).take k := signed
      rw [if_neg alone, vouched] at signature_now
      rw [consistent_iff manifest_now signature_now, present_iff_kept ok active, ← carries]
      simp [Harmless, ok, active, signed]
  · have waiting : manifestName ∉ (publish v c feed answered remote).take k := active
    rw [if_neg waiting, served] at manifest_now
    by_cases signed : Signed v c feed answered remote k
    · have early : signatureName ∈ (publish v c feed answered remote).take k := signed
      rw [if_pos early] at signature_now
      rw [consistent_iff manifest_now signature_now, present_iff_spared served present ok,
        ← vouches]
      simp [Harmless, ok, active, signed]
    · have unsigned : signatureName ∉ (publish v c feed answered remote).take k := signed
      rw [if_neg unsigned, vouched] at signature_now
      rw [consistent_iff manifest_now signature_now, present_iff_spared served present ok, verifies]
      simp [Harmless, ok, active, signed]

/-- A publication stopped after any upload leaves a consistent channel exactly if these
uploads are harmless: while the old manifest is live, its own signature stays. In every
case the payloads that have content keep it. -/
theorem published_consistent_iff (v : Vouching) (c : Channel) (feed : LocalFeed)
    (answered : String → Bool) (remote : Bucket) (start : Consistent v c remote) (k : Nat) :
    (Consistent v c (published v c feed answered remote k) ↔ Harmless v c feed answered remote k) ∧
    ∀ key o, key ≠ c.key manifestName → key ≠ c.key signatureName → remote[key]? = some o →
      o.content ≠ "" → (published v c feed answered remote k)[key]? = some o := by
  cases ok : accepted v c feed remote with
  | false =>
    have same : published v c feed answered remote k = remote := by
      rw [published, publish_eq, ok]
      cases k <;> rfl
    rw [same]
    refine ⟨⟨fun _ begun => ?_, fun _ => start⟩, fun key o _ _ there _ => there⟩
    rw [ok] at begun
    cases begun
  | true =>
    refine ⟨consistent_iff_harmless start ok,
      fun key o notManifest notSignature there content => ?_⟩
    rw [published, getElem?_uploads_of_ne ?_, there]
    rintro r uploaded rfl
    by_cases last : r = manifestName ∨ r = signatureName
    · rcases last with rfl | rfl
      · exact notManifest rfl
      · exact notSignature rfl
    · have early := (payload_uploaded_iff ok (not_or.mp last)).mp uploaded
      have absent := (mem_pending (List.mem_of_mem_take early)).2
      rw [existing, there] at absent
      simp at absent
      exact content absent

end

def isHex (c : Char) : Bool :=
  c.isDigit || ('a' ≤ c && c ≤ 'f') || ('A' ≤ c && c ≤ 'F')

/-- A digest, a blank, a blank or a star, and a name. -/
def wellFormed (line : String) : Bool :=
  line.toList.all (' ' ≤ ·) && (line.toList.take 64).all isHex && 66 < line.toList.length &&
    (line.toList.drop 64).head? == some ' ' &&
    ((line.toList.drop 65).head? == some ' ' || (line.toList.drop 65).head? == some '*')

/-- What the lines of such a manifest list. -/
def plainSums (manifest : String) : Option (List (String × String)) :=
  let lines := textLines manifest
  if !lines.isEmpty && lines.all wellFormed then
    some (lines.map fun line => (listedName line, listedDigest line))
  else none

/-- The digests of two payloads, and signatures that repeat what they sign. -/
def vouching : Vouching where
  sha256sum content :=
    if content = "x" then "2d711642b726b04401627ca9fbac32f5c8530fb1903cc4db02258717921a4881"
    else if content = "y" then "a1fce4363854ff888cff4b8e7875d600c2682390412a8cf79b37d0b11148b0fa"
    else ""
  verify signature manifest := signature == "signed " ++ manifest
  sums := plainSums

/-- A manifest of one payload. -/
def listing (name content : String) : String := vouching.sha256sum content ++ "  " ++ name

/-- A channel that serves a version of an extension. -/
def serves : Bucket :=
  (((∅ : Bucket).insert "carbideos/SHA256SUMS" ⟨listing "demo_1.sysext.raw" "x", none⟩).insert
    "carbideos/SHA256SUMS.gpg" ⟨"signed " ++ listing "demo_1.sysext.raw" "x", none⟩).insert
    "carbideos/demo_1.sysext.raw" ⟨"x", some (vouching.sha256sum "x")⟩

/-- A feed of the next version. -/
def nextFeed : LocalFeed where
  files := (((∅ : Std.ExtTreeMap String String).insert manifestName
      (listing "demo_2.sysext.raw" "y")).insert
    signatureName ("signed " ++ listing "demo_2.sysext.raw" "y")).insert "demo_2.sysext.raw" "y"
  tidy := by
    intro name hn
    simp only [Std.ExtTreeMap.mem_insert, Std.LawfulEqCmp.compare_eq_iff_eq,
      Std.ExtTreeMap.not_mem_empty, or_false] at hn
    rcases hn with rfl | rfl | rfl <;> decide +kernel

theorem serves_consistent : Consistent vouching .development serves := by
  refine ⟨listing "demo_1.sysext.raw" "x", "signed " ++ listing "demo_1.sysext.raw" "x",
    by decide +kernel, by decide +kernel, by decide +kernel, ?_⟩
  rintro name digest ⟨entries, read, member, -⟩
  have one : vouching.sums (listing "demo_1.sysext.raw" "x") =
      some [("demo_1.sysext.raw", vouching.sha256sum "x")] := by
    decide +kernel
  obtain rfl := Option.some.inj (read.symm.trans one)
  obtain ⟨rfl, rfl⟩ := Prod.mk.inj (List.mem_singleton.mp member)
  exact ⟨⟨"x", some (vouching.sha256sum "x")⟩, by decide +kernel, by decide +kernel⟩

theorem publish_next : publish vouching .development nextFeed (fun _ => true) serves =
    ["demo_2.sysext.raw", signatureName, manifestName] := by
  decide +kernel

theorem published_consistent_next :
    (Consistent vouching .development
        (published vouching .development nextFeed (fun _ => true) serves 1) ↔
      Harmless vouching .development nextFeed (fun _ => true) serves 1) ∧
    ∀ key o, key ≠ Channel.development.key manifestName →
      key ≠ Channel.development.key signatureName → serves[key]? = some o → o.content ≠ "" →
      (published vouching .development nextFeed (fun _ => true) serves 1)[key]? = some o :=
  published_consistent_iff vouching .development nextFeed (fun _ => true) serves serves_consistent 1

/-- Stopped between the signature and the manifest, a publication leaves a manifest whose
signature is gone. -/
theorem next_signature_breaks : Consistent vouching .development serves ∧
    ¬ Consistent vouching .development
      (published vouching .development nextFeed (fun _ => true) serves 2) := by
  refine ⟨serves_consistent, ?_⟩
  rintro ⟨manifest, signature, hm, hs, verifies, -⟩
  rw [published_manifest, publish_next, if_neg (by decide)] at hm
  rw [published_signature, publish_next, if_pos (by decide)] at hs
  have served : serves.manifest .development = some (listing "demo_1.sysext.raw" "x") := by
    decide +kernel
  obtain rfl := Option.some.inj (served.symm.trans hm)
  obtain rfl := Option.some.inj hs
  revert verifies
  decide +kernel

end CarbideOS.Feed
