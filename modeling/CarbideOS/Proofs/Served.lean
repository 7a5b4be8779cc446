import CarbideOS.Feed.Prune
import CarbideOS.Lib.Runs
import CarbideOS.Proofs.Uploaded

namespace CarbideOS.Feed
open Interruptible

inductive Task where
  | publish (c : Channel) (feed : LocalFeed) (answered : String → Bool) (done : Nat)
  | prune (c : Channel) (programs : Programs) (manifest : String) (done : Nat)

def Task.after (v : Vouching) : Task → Bucket → Bucket
  | .publish c feed answered done, b => published v c feed answered b done
  | .prune c programs manifest done, b => b.deleted (Feed.prune programs c manifest b) done

/-- What a bucket has come to after some tasks. -/
def history (v : Vouching) (tasks : List Task) (b : Bucket) : Bucket :=
  runAll (Task.after v) tasks b

/-- `sha256sum` reads what it wrote. -/
def Vouching.ReadsPlain (v : Vouching) : Prop :=
  ∀ manifest entries, plainSums manifest = some entries → v.sums manifest = some entries

/-- A feed of regular files: a manifest that `sha256sum` wrote for some of them, its signature,
and no empty payload. -/
structure LocalFeed.Ordinary (feed : LocalFeed) : Prop where
  summed : manifestName ∈ feed.files
  signed : signatureName ∈ feed.files
  listed : ∃ entries, plainSums (feed.content manifestName) = some entries ∧
    ∀ entry ∈ entries, entry.1 ∈ feed.files
  filled : ∀ name ∈ feed.payloads, feed.content name ≠ ""

/-- A publication is of an ordinary feed, and a prune is made with a manifest that covers the live
one. -/
def Orderly : Task → Bucket → Prop
  | .publish _ feed _ _, _ => feed.Ordinary
  | .prune c _ manifest _, b => Covered c manifest b

/-- A publication is not stopped right before its last upload. -/
def Unbroken (v : Vouching) : Task → Bucket → Prop
  | .publish c feed answered done, b => done + 1 ≠ (publish v c feed answered b).length
  | .prune _ _ _ _, _ => True

/-- Digests on record are right, and what a live manifest lists is there. -/
structure Stocked (v : Vouching) (b : Bucket) : Prop where
  recorded : ∀ (key : String) (o : Object) digest, b[key]? = some o → o.recorded = some digest →
    hasDigest v o.content digest = true
  filled : ∀ (c : Channel) (name : String) (o : Object), '/' ∉ name.toList → name ≠ manifestName →
    name ≠ signatureName → b[c.key name]? = some o → o.content ≠ ""
  direct : ∀ c live, b.manifest c = some live → ∃ entries, plainSums live = some entries ∧
    ∀ entry ∈ entries, '/' ∉ entry.1.toList
  present : ∀ c live, b.manifest c = some live → Present v c live b

/-- The signature of a live manifest is its own. -/
def Vouched (v : Vouching) (b : Bucket) : Prop := ∀ c live, b.manifest c = some live →
  ∃ signature, (b[c.key signatureName]?).map Object.content = some signature ∧
    v.verify signature live = true

section
variable {v : Vouching} {c c' : Channel} {feed : LocalFeed} {answered : String → Bool}
  {remote b : Bucket} {names : List String} {name key manifest : String} {k : Nat} {p : Programs}

/-- Two objects directly under channels are one only under one channel. -/
theorem channel_key_inj {r s : String} (hr : '/' ∉ r.toList) (hs : '/' ∉ s.toList)
    (same : c.key r = c'.key s) : c = c' ∧ r = s := by
  have paths : ∀ {d : Channel} {t : String}, '/' ∉ t.toList →
      Shell.beforeLast (d.key t) '/' = d.path := fun ht => Shell.beforeLast_append ht
  have path : c.path = c'.path := by
    rw [← paths hr, ← paths hs, same]
  have channel : c = c' := by
    cases c <;> cases c' <;> first | rfl | exact absurd path (by decide)
  subst channel
  exact ⟨rfl, key_inj.mp same⟩

theorem mem_files_direct (there : name ∈ feed.files) : '/' ∉ name.toList := by
  intro slash
  have tidy := List.all_eq_true.mp (feed.tidy name there) '/' slash
  revert tidy
  decide

/-- Everything that is uploaded goes directly under the channel. -/
theorem uploads_direct (there : name ∈ (publish v c feed answered remote).take k) :
    '/' ∉ name.toList := by
  cases ok : accepted v c feed remote with
  | false =>
    rw [publish_eq, ok] at there
    cases k <;> cases there
  | true =>
    by_cases last : name = manifestName ∨ name = signatureName
    · rcases last with rfl | rfl <;> decide
    · have early := (payload_uploaded_iff ok (not_or.mp last)).mp there
      exact mem_files_direct (mem_payloads.mp (mem_pending (List.mem_of_mem_take early)).1).1

theorem published_cases (key : String) :
    (published v c feed answered remote k)[key]? = remote[key]? ∨
    ∃ name ∈ (publish v c feed answered remote).take k, key = c.key name ∧
      (published v c feed answered remote k)[key]? = some (localObject feed name) := by
  by_cases uploaded : ∃ name ∈ (publish v c feed answered remote).take k, key = c.key name
  · obtain ⟨name, there, rfl⟩ := uploaded
    exact .inr ⟨name, there, rfl, by rw [getElem?_published, if_pos there]⟩
  · refine .inl (getElem?_uploads_of_ne fun r there same => uploaded ⟨r, there, same⟩)

/-- A publication leaves what is directly under other channels alone. -/
theorem published_other (other : c' ≠ c) (direct : '/' ∉ name.toList) :
    (published v c feed answered remote k)[c'.key name]? = remote[c'.key name]? := by
  rcases published_cases (c'.key name) with same | ⟨r, there, same, -⟩
  · exact same
  · exact absurd (channel_key_inj direct (uploads_direct there) same).1 other

/-- A digest that is found for a name is listed for it. -/
theorem mem_plainSums {entries : List (String × String)} (plain : plainSums manifest = some entries)
    (found : manifestHash name manifest ≠ "") : (name, manifestHash name manifest) ∈ entries := by
  unfold plainSums at plain
  dsimp only at plain
  split at plain
  · obtain rfl := Option.some.inj plain
    unfold manifestHash at found ⊢
    cases line : (textLines manifest).find? fun line => listedName line == name with
    | none => exact absurd (by rw [line]; rfl) found
    | some l =>
      have named : listedName l = name := by simpa using List.find?_some line
      exact List.mem_map.mpr ⟨l, List.mem_of_find?_eq_some line, by rw [named]; rfl⟩
  · cases plain

/-- What a manifest of the plain form lists, by its lines. -/
theorem lists_line {digest : String} (reads : v.ReadsPlain) {entries : List (String × String)}
    (plain : plainSums manifest = some entries) (listed : Lists v manifest name digest) :
    (name, digest) ∈ entries ∧ name ≠ "" ∧ name ∈ (textLines manifest).map listedName := by
  obtain ⟨entries', read, member, -⟩ := listed
  obtain rfl := Option.some.inj ((reads manifest entries plain).symm.trans read)
  refine ⟨member, ?_⟩
  unfold plainSums at plain
  dsimp only at plain
  split at plain
  · rename_i formed
    obtain rfl := Option.some.inj plain
    obtain ⟨line, there, same⟩ := List.mem_map.mp member
    obtain ⟨rfl, rfl⟩ := Prod.mk.inj same
    refine ⟨?_, List.mem_map_of_mem there⟩
    rw [Bool.and_eq_true, List.all_eq_true] at formed
    have long := formed.2 line there
    simp only [wellFormed, Bool.and_eq_true, decide_eq_true_eq] at long
    intro empty
    have short := congrArg (fun s => s.toList.length) empty
    simp [listedName] at short
    omega
  · cases plain

/-- The digest that a plain manifest has for a name is that of the local file. -/
theorem manifestHash_right (reads : v.ReadsPlain) (ordinary : feed.Ordinary)
    (sums : checkSums v feed (feed.content manifestName) = true)
    (found : manifestHash name (feed.content manifestName) ≠ "") :
    hasDigest v (feed.content name) (manifestHash name (feed.content manifestName)) = true := by
  obtain ⟨entries, plain, -⟩ := ordinary.listed
  rw [checkSums, reads _ _ plain, Option.any_some, Bool.and_eq_true, List.all_eq_true] at sums
  have here := sums.2 _ (mem_plainSums plain found)
  cases content : feed.read name with
  | none => simp [content] at here
  | some text =>
    rw [LocalFeed.content, content]
    simpa [content] using here

/-- The digest recorded on an upload is that of its content. -/
theorem localObject_recorded {digest : String} (reads : v.ReadsPlain) (ordinary : feed.Ordinary)
    (sums : checkSums v feed (feed.content manifestName) = true)
    (on : (localObject feed name).recorded = some digest) :
    hasDigest v (localObject feed name).content digest = true := by
  simp only [localObject] at on ⊢
  split at on
  · cases on
  · rename_i found
    obtain rfl := Option.some.inj on
    exact manifestHash_right reads ordinary sums found

/-- A payload is taken for unchanged by the digest on its object, or by the manifest
of the bucket. -/
theorem unchanged_cases (h : unchanged v c feed answered remote name = true) :
    manifestHash name (feed.content manifestName) ≠ "" ∧
      ((∃ o, remote[c.key name]? = some o ∧ answered (c.key name) = true ∧
          o.recorded = some (manifestHash name (feed.content manifestName)) ∧
          manifestHash name (feed.content manifestName) ≠ "None") ∨
        ∃ live, remote.manifest c = some live ∧
          manifestHash name live = manifestHash name (feed.content manifestName)) := by
  simp only [unchanged, unchangedPayload, Bool.and_eq_true, bne_iff_ne, beq_iff_eq] at h
  obtain ⟨⟨⟨-, found⟩, -⟩, same⟩ := h
  refine ⟨found, ?_⟩
  revert same
  generalize hr : (if answered (c.key name) then
    ((remote[c.key name]?).bind Object.recorded).getD "" else "") = recorded
  intro same
  by_cases usable : (if recorded = "None" then "" else recorded) = ""
  · right
    rw [if_pos usable] at same
    cases live : remoteManifest v c answered remote with
    | none =>
      rw [live] at same
      exact absurd same found
    | some m =>
      rw [live] at same
      exact ⟨m, (Option.filter_eq_some_iff.mp live).1, same.symm⟩
  · left
    rw [if_neg usable] at same
    by_cases nothing : recorded = "None"
    · exact absurd (if_pos nothing) usable
    · rw [if_neg nothing] at same usable
      by_cases asked : answered (c.key name) = true
      · rw [if_pos asked] at hr
        cases there : remote[c.key name]? with
        | none =>
          rw [there] at hr
          exact absurd hr.symm usable
        | some o =>
          refine ⟨o, rfl, asked, ?_, same ▸ nothing⟩
          rw [there, Option.bind_some] at hr
          cases on : o.recorded with
          | none =>
            rw [on] at hr
            exact absurd hr.symm usable
          | some d =>
            rw [on] at hr
            rw [same, ← hr]
            rfl
      · rw [if_neg asked] at hr
        exact absurd hr.symm usable

/-- A payload that is to be uploaded is not there. -/
theorem pending_absent (stocked : Stocked v remote)
    (there : name ∈ pending v c feed answered remote) : remote[c.key name]? = none := by
  obtain ⟨payload, empty⟩ := mem_pending there
  obtain ⟨file, notManifest, notSignature⟩ := mem_payloads.mp payload
  cases found : remote[c.key name]? with
  | none => rfl
  | some o =>
    have content := stocked.filled c name o (mem_files_direct file) notManifest notSignature found
    rw [existing, found] at empty
    exact absurd (by simpa using empty) content

/-- What is taken for unchanged has the digest of the new manifest. -/
theorem unchanged_present (reads : v.ReadsPlain) (ordinary : feed.Ordinary)
    (stocked : Stocked v remote) (sums : checkSums v feed (feed.content manifestName) = true)
    (payload : name ∈ feed.payloads) (same : unchanged v c feed answered remote name = true)
    {digest : String} (here : hasDigest v (feed.content name) digest = true) :
    ∃ o, remote[c.key name]? = some o ∧ hasDigest v o.content digest = true := by
  obtain ⟨found, record⟩ := unchanged_cases same
  have own := manifestHash_right reads ordinary sums found
  rcases record with ⟨o, there, -, on, -⟩ | ⟨live, served, agrees⟩
  · exact ⟨o, there, hasDigest_trans (stocked.recorded _ o _ there on) own here⟩
  · rw [← agrees] at found own
    obtain ⟨entries, plain, -⟩ := stocked.direct c live served
    have listed : Lists v live name (manifestHash name live) :=
      ⟨entries, reads live entries plain, mem_plainSums plain found, (mem_payloads.mp payload).2⟩
    obtain ⟨o, there, good⟩ := stocked.present c live served name _ listed
    exact ⟨o, there, hasDigest_trans good own here⟩

/-- A manifest goes live after all it lists is there. -/
theorem present_activated (reads : v.ReadsPlain) (ordinary : feed.Ordinary)
    (stocked : Stocked v remote) (ok : accepted v c feed remote = true)
    (active : Activated v c feed answered remote k) :
    Present v c (feed.content manifestName) (published v c feed answered remote k) := by
  refine (present_iff_kept ok active).mpr fun name digest listed same => ?_
  obtain ⟨entries, plain, files⟩ := ordinary.listed
  have other : name ≠ manifestName ∧ name ≠ signatureName := by
    obtain ⟨-, -, -, other⟩ := listed
    exact other
  have payload : name ∈ feed.payloads :=
    mem_payloads.mpr ⟨files _ (lists_line reads plain listed).1, other⟩
  exact unchanged_present reads ordinary stocked (accepted_sums ok) payload (same payload)
    (checkSums_lists (accepted_sums ok) listed)

/-- Until then, what the old one lists stays. -/
theorem present_waiting (stocked : Stocked v remote) (ok : accepted v c feed remote = true)
    {live : String} (served : remote.manifest c = some live) :
    Present v c live (published v c feed answered remote k) := by
  refine (present_iff_spared served (stocked.present c live served) ok).mpr ?_
  intro live' served' name early digest listed
  obtain rfl : live = live' := Option.some.inj (served.symm.trans served')
  obtain ⟨o, there, -⟩ := stocked.present c live served name digest listed
  rw [pending_absent stocked (List.mem_of_mem_take early)] at there
  cases there

theorem published_live {live : String}
    (served : (published v c feed answered remote k).manifest c = some live) :
    Activated v c feed answered remote k ∧ live = feed.content manifestName ∨
      ¬ Activated v c feed answered remote k ∧ remote.manifest c = some live := by
  rw [published_manifest] at served
  split at served
  · rename_i active
    exact .inl ⟨active, (Option.some.inj served).symm⟩
  · rename_i waiting
    exact .inr ⟨waiting, served⟩

theorem published_refused (no : accepted v c feed remote = false) :
    published v c feed answered remote k = remote := by
  rw [published, publish_eq, no]
  cases k <;> rfl

theorem other_manifest (other : c' ≠ c) :
    (published v c feed answered remote k).manifest c' = remote.manifest c' := by
  rw [Bucket.manifest, published_other other (by decide)]
  rfl

theorem Stocked.published (reads : v.ReadsPlain) (stocked : Stocked v remote)
    (ordinary : feed.Ordinary) : Stocked v (published v c feed answered remote k) := by
  cases ok : accepted v c feed remote with
  | false => rwa [published_refused ok]
  | true =>
    refine ⟨fun key o digest there on => ?_,
      fun c' name o direct notManifest notSignature there => ?_,
      fun c' live served => ?_, fun c' live served => ?_⟩
    · have either : (Feed.published v c feed answered remote k)[key]? = remote[key]? ∨
          ∃ r ∈ (publish v c feed answered remote).take k, key = c.key r ∧
            (Feed.published v c feed answered remote k)[key]? = some (localObject feed r) :=
        published_cases key
      rcases either with same | ⟨r, -, -, now⟩
      · exact stocked.recorded key o digest (same ▸ there) on
      · obtain rfl := Option.some.inj (now.symm.trans there)
        exact localObject_recorded reads ordinary (accepted_sums ok) on
    · by_cases same : c' = c
      · subst same
        rw [getElem?_published] at there
        split at there
        · rename_i uploaded
          obtain rfl := Option.some.inj there
          have early := (payload_uploaded_iff ok ⟨notManifest, notSignature⟩).mp uploaded
          exact ordinary.filled name (mem_pending (List.mem_of_mem_take early)).1
        · exact stocked.filled c' name o direct notManifest notSignature there
      · rw [published_other same direct] at there
        exact stocked.filled c' name o direct notManifest notSignature there
    · by_cases same : c' = c
      · subst same
        rcases published_live served with ⟨-, rfl⟩ | ⟨-, before⟩
        · obtain ⟨entries, plain, files⟩ := ordinary.listed
          exact ⟨entries, plain, fun entry there => mem_files_direct (files entry there)⟩
        · exact stocked.direct c' live before
      · rw [other_manifest same] at served
        exact stocked.direct c' live served
    · by_cases same : c' = c
      · subst same
        rcases published_live served with ⟨active, rfl⟩ | ⟨-, before⟩
        · exact present_activated reads ordinary stocked ok active
        · exact present_waiting stocked ok before
      · rw [other_manifest same] at served
        intro name digest listed
        obtain ⟨entries, plain, direct⟩ := stocked.direct c' live served
        rw [published_other same (direct _ (lists_line reads plain listed).1)]
        exact stocked.present c' live served name digest listed

theorem LocalFeed.Ordinary.last (ordinary : feed.Ordinary) :
    [signatureName, manifestName].filter (fun name => feed.files.contains name) =
      [signatureName, manifestName] := by
  simp [ordinary.summed, ordinary.signed]

/-- Just these names have been uploaded after so many uploads. -/
theorem mem_take_publish (ordinary : feed.Ordinary) (ok : accepted v c feed remote = true) :
    name ∈ (publish v c feed answered remote).take k ↔
      name ∈ (pending v c feed answered remote).take k ∨
      complete v c feed answered remote = true ∧
        (name = signatureName ∧ (pending v c feed answered remote).length + 1 ≤ k ∨
          name = manifestName ∧ (pending v c feed answered remote).length + 2 ≤ k) := by
  rw [publish_eq, if_pos ok, ordinary.last, List.take_append, List.mem_append]
  cases complete v c feed answered remote with
  | false => simp
  | true =>
    simp only [if_true, true_and]
    apply or_congr_right
    generalize (pending v c feed answered remote).length = n
    have one : n + 1 ≤ k ↔ 1 ≤ k - n := by omega
    have two : n + 2 ≤ k ↔ 2 ≤ k - n := by omega
    rw [one, two]
    rcases k - n with - | - | extra <;> simp

theorem Vouched.published (vouched : Vouched v remote) (ordinary : feed.Ordinary)
    (whole : k + 1 ≠ (publish v c feed answered remote).length) :
    Vouched v (published v c feed answered remote k) := by
  cases ok : accepted v c feed remote with
  | false => rwa [published_refused ok]
  | true =>
    intro c' live served
    by_cases same : c' = c
    · subst same
      -- The signature goes up right before the manifest, so only both are up or none.
      have along : signatureName ∈ (publish v c' feed answered remote).take k ↔
          manifestName ∈ (publish v c' feed answered remote).take k := by
        rw [mem_take_publish ordinary ok, mem_take_publish ordinary ok]
        constructor
        · rintro (early | ⟨complete, ⟨-, long⟩ | ⟨other, -⟩⟩)
          · exact absurd rfl (pending_ne (List.mem_of_mem_take early)).2
          · rw [publish_eq, if_pos ok, if_pos complete, ordinary.last, List.length_append] at whole
            simp only [List.length_cons, List.length_nil] at whole
            exact .inr ⟨complete, .inr ⟨rfl, by omega⟩⟩
          · exact absurd other (by decide)
        · rintro (early | ⟨complete, ⟨other, -⟩ | ⟨-, long⟩⟩)
          · exact absurd rfl (pending_ne (List.mem_of_mem_take early)).1
          · exact absurd other (by decide)
          · exact .inr ⟨complete, .inl ⟨rfl, by omega⟩⟩
      rw [published_signature]
      rw [published_manifest] at served
      by_cases active : manifestName ∈ (publish v c' feed answered remote).take k
      · rw [if_pos active] at served
        obtain rfl := Option.some.inj served
        exact ⟨_, if_pos (along.mpr active), accepted_verified ok⟩
      · rw [if_neg active] at served
        rw [if_neg fun signed => active (along.mp signed)]
        exact vouched c' live served
    · rw [other_manifest same] at served
      rw [published_other same (by decide)]
      exact vouched c' live served

/-- A deletion takes objects away and changes none. -/
theorem getElem?_deleted {keys : List String} :
    (b.deleted keys k)[key]? = if key ∈ keys.take k then none else b[key]? := by
  unfold Bucket.deleted
  generalize keys.take k = gone
  induction gone generalizing b with
  | nil => simp
  | cons first gone ih =>
    rw [List.foldl_cons, ih, Std.ExtTreeMap.getElem?_erase]
    simp only [Std.LawfulEqCmp.compare_eq_iff_eq]
    by_cases later : key ∈ gone
    · simp [later]
    · by_cases now : first = key
      · simp [later, now]
      · simp [later, now, Ne.symm now]

theorem of_deleted {keys : List String} {o : Object} (there : (b.deleted keys k)[key]? = some o) :
    b[key]? = some o := by
  rw [getElem?_deleted] at there
  split at there
  · cases there
  · exact there

/-- The manifests and signatures of all channels stay in a prune. -/
theorem deleted_kept (kept : name = manifestName ∨ name = signatureName) :
    (b.deleted (prune p c manifest b) k)[c'.key name]? = b[c'.key name]? := by
  rw [getElem?_deleted, if_neg]
  intro gone
  obtain ⟨r, same, direct, unlisted⟩ := mem_prune (List.mem_of_mem_take gone)
  have plain : '/' ∉ name.toList := by rcases kept with rfl | rfl <;> decide
  obtain ⟨-, rfl⟩ := channel_key_inj plain direct same
  have listed : name ∈ keep manifest := by rcases kept with rfl | rfl <;> simp [keep]
  have dash := unlisted listed
  rcases kept with rfl | rfl <;> exact absurd dash (by decide)

theorem deleted_manifest :
    (b.deleted (prune p c manifest b) k).manifest c' = b.manifest c' := by
  rw [Bucket.manifest, deleted_kept (.inl rfl)]
  rfl

theorem Stocked.deleted (reads : v.ReadsPlain) (stocked : Stocked v b)
    (covered : Covered c manifest b) : Stocked v (b.deleted (prune p c manifest b) k) := by
  refine ⟨fun key o digest there on => stocked.recorded key o digest (of_deleted there) on,
    fun c' name o direct notManifest notSignature there =>
      stocked.filled c' name o direct notManifest notSignature (of_deleted there),
    fun c' live served => ?_, fun c' live served name digest listed => ?_⟩
  · rw [deleted_manifest] at served
    exact stocked.direct c' live served
  · rw [deleted_manifest] at served
    obtain ⟨entries, plain, direct⟩ := stocked.direct c' live served
    obtain ⟨member, nonempty, named⟩ := lists_line reads plain listed
    obtain ⟨o, there, good⟩ := stocked.present c' live served name digest listed
    refine ⟨o, ?_, good⟩
    rw [getElem?_deleted, if_neg, there]
    intro gone
    obtain ⟨r, same, below, unlisted⟩ := mem_prune (List.mem_of_mem_take gone)
    obtain ⟨rfl, rfl⟩ := channel_key_inj (direct _ member) below same
    have referenced : b.References c' name := ⟨nonempty, live, served, named⟩
    have here : c'.key name ∈ b := by
      rw [Std.ExtTreeMap.mem_iff_isSome_getElem?, there]
      rfl
    obtain ⟨kept, dash⟩ := covered name referenced (direct _ member) here
    rw [unlisted kept] at dash
    cases dash

theorem Vouched.deleted (vouched : Vouched v b) :
    Vouched v (b.deleted (prune p c manifest b) k) := by
  intro c' live served
  rw [deleted_manifest] at served
  rw [deleted_kept (.inr rfl)]
  exact vouched c' live served

/-- A prune by the manifest that is live covers it, where names do not read as options. -/
theorem covered_live (served : b.manifest c = some manifest)
    (plain : ∀ line ∈ textLines manifest, Text.startsWith (listedName line) "-" = false) :
    Covered c manifest b := by
  rintro r ⟨-, live, served', member⟩ - -
  obtain rfl : manifest = live := Option.some.inj (served.symm.trans served')
  obtain ⟨line, there, rfl⟩ := List.mem_map.mp member
  exact ⟨List.mem_cons_of_mem _ (List.mem_cons_of_mem _ member), plain line there⟩

theorem stocked_after (reads : v.ReadsPlain) {task : Task} (orderly : Orderly task b)
    (stocked : Stocked v b) : Stocked v (task.after v b) := by
  cases task with
  | publish c feed answered done => exact stocked.published reads orderly
  | prune c programs manifest done => exact stocked.deleted reads orderly

theorem vouched_after {task : Task} (orderly : Orderly task b) (unbroken : Unbroken v task b)
    (vouched : Vouched v b) : Vouched v (task.after v b) := by
  cases task with
  | publish c feed answered done => exact vouched.published orderly unbroken
  | prune c programs manifest done => exact vouched.deleted

end

theorem stocked_empty (v : Vouching) : Stocked v ∅ := by
  refine ⟨fun key o digest there => ?_, fun c name o _ _ _ there => ?_,
    fun c live served => ?_, fun c live served => ?_⟩
  all_goals
    first
      | exact absurd there (by simp)
      | exact absurd served (by simp [Bucket.manifest])

/-- Over the life of a bucket, whatever ordinary feeds are published in it and wherever
publications and prunes stop: what a live manifest lists is there with its digest, and digests on
record are right. A channel serves a manifest under another signature only from a publication that
was stopped right before its last upload on. -/
theorem feed_serves (v : Vouching) (reads : v.ReadsPlain) (tasks : List Task)
    (orderly : EachMeets (Task.after v) Orderly tasks ∅) :
    (∀ c live, (history v tasks ∅).manifest c = some live → Present v c live (history v tasks ∅)) ∧
    (∀ (key : String) (o : Object) digest, (history v tasks ∅)[key]? = some o →
      o.recorded = some digest → hasDigest v o.content digest = true) ∧
    (EachMeets (Task.after v) (Unbroken v) tasks ∅ → ∀ c live,
      (history v tasks ∅).manifest c = some live → Consistent v c (history v tasks ∅)) := by
  have stocked : Stocked v (history v tasks ∅) :=
    runAll_invariant (fun _ _ hs h => stocked_after reads h hs) (stocked_empty v) orderly
  refine ⟨stocked.present, stocked.recorded, fun unbroken c live served => ?_⟩
  have each : EachMeets (Task.after v) (fun t b => Orderly t b ∧ Unbroken v t b) tasks ∅ := by
    rw [eachMeets_iff] at orderly unbroken ⊢
    exact fun before t rest split =>
      ⟨orderly before t rest split, unbroken before t rest split⟩
  have vouched : Vouched v (history v tasks ∅) :=
    runAll_invariant (fun _ _ hs h => vouched_after h.1 h.2 hs)
      (fun c live served => absurd served (by simp [Bucket.manifest])) each
  obtain ⟨signature, there, verifies⟩ := vouched c live served
  exact ⟨live, signature, served, there, verifies, stocked.present c live served⟩

/-- A first publication that is stopped before its manifest, then made as a whole and pruned by its
own manifest. -/
def firstTasks : List Task :=
  [.publish .development nextFeed (fun _ => true) 1,
    .publish .development nextFeed (fun _ => true) 3,
    .prune .development ordinary (listing "demo_2.sysext.raw" "y") 5]

theorem feed_serves_first :
    (∀ c live, (history vouching firstTasks ∅).manifest c = some live →
      Present vouching c live (history vouching firstTasks ∅)) ∧
    (∀ (key : String) (o : Object) digest, (history vouching firstTasks ∅)[key]? = some o →
      o.recorded = some digest → hasDigest vouching o.content digest = true) ∧
    (EachMeets (Task.after vouching) (Unbroken vouching) firstTasks ∅ → ∀ c live,
      (history vouching firstTasks ∅).manifest c = some live →
        Consistent vouching c (history vouching firstTasks ∅)) := by
  have ordinary : nextFeed.Ordinary := by
    refine ⟨by decide +kernel, by decide +kernel,
      ⟨[("demo_2.sysext.raw", vouching.sha256sum "y")], by decide +kernel, ?_⟩, by decide +kernel⟩
    intro entry there
    rw [List.mem_singleton.mp there]
    decide +kernel
  refine feed_serves vouching (fun _ _ => id) firstTasks ⟨ordinary, ordinary, ?_, trivial⟩
  refine covered_live (by decide +kernel) ?_
  decide +kernel

example : (history vouching firstTasks ∅).manifest .development =
    some (listing "demo_2.sysext.raw" "y") := by
  decide +kernel

end CarbideOS.Feed
