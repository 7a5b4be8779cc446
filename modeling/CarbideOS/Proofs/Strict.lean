import CarbideOS.Ops.Reboot
import CarbideOS.Proofs.Names
import CarbideOS.Proofs.Calm

namespace CarbideOS.Ops
open Interruptible Agent

/-- An extension that has an image for the running base. -/
def Present (running : String) (w : Node) (name : String) : Prop :=
  versionValid name = true ∧ Plain name ∧ w.fileExists (scopedActivePath name running) = true

/-- A reboot is let through only into the base the agent reports, and only with an image for it
of every extension that has one for the running base. -/
def Strict (env : Environment) (running id : String) (expand : String → List String)
    (isFile : String → Bool) (w : Node) : Prop :=
  requirePendingExtensions running id expand isFile w = true → (∃ name, Present running w name) →
    ∃ p u, Agent.pendingBaseVersion env w = .ok (some p) u ∧
      ∀ name, Present running w name → w.fileExists (scopedActivePath name p) = true

/-- The name of a boot entry that the agent counts for a version. -/
def EntryFor (id version entry : String) : Prop :=
  versionValid version = true ∧ ∃ counter, entry = id ++ "_" ++ version ++ "+" ++ counter ∧
    Text.endsWith counter ".efi" = true

/-- The name of a boot entry in which the script reads a version. -/
def Reads (id version entry : String) : Prop :=
  '+' ∉ version.toList ∧ ∃ rest, entry = id ++ "_" ++ version ++ "+" ++ rest

/-- A name is the only one of a kind. -/
def OnlyOne (kind : String → Prop) (names : List String) (name : String) : Prop :=
  kind name ∧ ∃ before after, names = before ++ name :: after ∧
    ∀ other ∈ before ++ after, ¬ kind other

/-- An image that the script takes for one of the running base. -/
def TakenFor (running : String) (w : Node) (file : String) : Prop :=
  w.fileExists ⟨.extensions, file⟩ = true ∧ isImage file = true ∧
    (nameAndBase running file).2 = running

/-- A name for which the script wants an image of the pending base. -/
def Sought (running : String) (expand : String → List String) (w : Node) (name : String) : Prop :=
  ∃ file, TakenFor running w file ∧
    ∃ field ∈ Shell.fields (nameAndBase running file).1, name ∈ expand field

/-- Script and agent read the names alike: the running base has no separator in it, and the
entries that match the pattern of the script are those that the agent counts. -/
def ReadAlike (running id : String) (w : Node) : Prop :=
  Plain running ∧
    ∀ entry ∈ w.bootEntries, isCounted id entry = true ↔ ∃ version, EntryFor id version entry

/-- There is an image that the script goes by, and for each version it could take one is
missing. -/
def Missing (running id : String) (expand : String → List String) (isFile : String → Bool)
    (w : Node) : Prop :=
  (∃ file, TakenFor running w file) ∧ ∀ version entry,
    OnlyOne (isCounted id · = true) w.bootEntries entry → isFile entry = true →
      Reads id version entry → ∃ name, Sought running expand w name ∧
        w.fileExists (scopedActivePath name version) = false

/-- One entry is counted, and there are images for its version all the same. -/
def Provided (running id : String) (w : Node) : Prop :=
  ∃ version entry, OnlyOne (fun e => ∃ v, EntryFor id v e) w.bootEntries entry ∧
    EntryFor id version entry ∧
      ∀ name, Present running w name → w.fileExists (scopedActivePath name version) = true

section
variable {running id name base file : String}

theorem versionValid_char {s : String} (valid : versionValid s = true) {c : Char}
    (hc : c ∈ s.toList) : (c.isAlphanum || c == '.' || c == '_' || c == '-') = true := by
  rw [versionValid, Bool.and_eq_true] at valid
  exact List.all_eq_true.mp valid.2 c hc

theorem versionValid_literal {s : String} (valid : versionValid s = true) {c : Char}
    (hc : c ∈ s.toList) : Shell.isBlank c = false ∧ Shell.isPattern c = false := by
  have allowed := versionValid_char valid hc
  constructor
  · by_contra blank
    simp only [Shell.isBlank, Bool.not_eq_false, Bool.or_eq_true, beq_iff_eq] at blank
    rcases blank with (rfl | rfl) | rfl <;> exact absurd allowed (by decide)
  · by_contra pattern
    simp only [Shell.isPattern, Bool.not_eq_false, Bool.or_eq_true, beq_iff_eq] at pattern
    rcases pattern with (rfl | rfl) | rfl <;> exact absurd allowed (by decide)

theorem fields_valid (valid : versionValid name = true) : Shell.fields name = [name] :=
  Shell.fields_word (versionValid_ne_empty valid) fun _ hc => (versionValid_literal valid hc).1

theorem isImage_scoped (valid : versionValid name = true) (base : String) :
    isImage (name ++ "_" ++ base ++ ".raw") = true := by
  obtain ⟨c, l, chars⟩ : ∃ c l, name.toList = c :: l := by
    cases split : name.toList with
    | nil => exact absurd (String.toList_eq_nil_iff.mp split) (versionValid_ne_empty valid)
    | cons c l => exact ⟨c, l, rfl⟩
  have first : c.isAlphanum = true := by
    rw [versionValid, Bool.and_eq_true, chars] at valid
    exact valid.1
  have visible : Text.startsWith (name ++ "_" ++ base ++ ".raw") "." = false := by
    by_contra hidden
    rw [Bool.not_eq_false, Text.startsWith_iff] at hidden
    simp only [String.toList_append, chars, List.cons_append] at hidden
    obtain ⟨rfl, -⟩ := List.cons_prefix_cons.mp hidden
    exact absurd first (by decide)
  have suffix : ['.', 'r', 'a', 'w'] <:+ name.toList ++ '_' :: (base.toList ++ ['.',
      'r', 'a', 'w']) :=
    ⟨name.toList ++ '_' :: base.toList, by simp⟩
  simpa [isImage, Shell.glob, visible, Shell.starred] using suffix

theorem withoutSuffix_append (s p : String) : Shell.withoutSuffix (s ++ p) p = s := by
  rw [Shell.withoutSuffix, Text.stripSuffix_eq_some.mpr rfl]
  rfl

theorem nameAndBase_scoped (plain : Plain base) (name : String) :
    nameAndBase running (name ++ "_" ++ base ++ ".raw") = (name, base) := by
  have there : '_' ∈ (name ++ "_" ++ base).toList := by simp
  unfold nameAndBase
  rw [withoutSuffix_append]
  dsimp only
  rw [if_pos there, show ("_" : String) = String.ofList ['_'] from rfl,
    Shell.beforeLast_append plain, Shell.afterLast_append plain]

/-- The fields of the names found are those of each. -/
theorem fields_installed (running : String) (files : List String) :
    Shell.fields (installed running files) =
      (files.filter fun file => isImage file && (nameAndBase running file).2 == running).flatMap
        fun file => Shell.fields (nameAndBase running file).1 := by
  have loop : ∀ found, Shell.fields (files.foldl (fun found file =>
      if isImage file && (nameAndBase running file).2 == running then
        found ++ " " ++ (nameAndBase running file).1
      else found) found) = Shell.fields found ++
        (files.filter fun file => isImage file && (nameAndBase running file).2 == running).flatMap
          fun file => Shell.fields (nameAndBase running file).1 := by
    induction files with
    | nil => simp
    | cons file rest ih =>
      intro found
      rw [List.foldl_cons, ih, List.filter_cons]
      split
      · rw [Shell.fields_append, List.flatMap_cons, List.append_assoc]
      · rfl
  exact loop ""

theorem installed_isEmpty {files : List String} :
    (installed running files).isEmpty = true ↔
      ∀ file ∈ files, (isImage file && (nameAndBase running file).2 == running) = false := by
  have loop : ∀ found : String, (files.foldl (fun found file =>
      if isImage file && (nameAndBase running file).2 == running then
        found ++ " " ++ (nameAndBase running file).1
      else found) found).isEmpty = true ↔ found.isEmpty = true ∧
        ∀ file ∈ files, (isImage file && (nameAndBase running file).2 == running) = false := by
    induction files with
    | nil => simp
    | cons file rest ih =>
      intro found
      rw [List.foldl_cons, ih]
      split
      · rename_i taken
        refine iff_of_false (fun h => ?_) fun h => ?_
        · have nothing := congrArg String.toList (String.isEmpty_iff.mp h.1)
          simp at nothing
        · rw [h.2 file List.mem_cons_self] at taken
          cases taken
      · rename_i other
        have skipped := (Bool.not_eq_true _).mp other
        rw [List.forall_mem_cons, skipped, eq_self, true_and]
  exact (loop "").trans (and_iff_right rfl)

theorem OnlyOne.mem {kind : String → Prop} {names : List String} (h : OnlyOne kind names name) :
    name ∈ names := by
  obtain ⟨-, before, after, rfl, -⟩ := h
  simp

theorem OnlyOne.congr {kind kind' : String → Prop} {names : List String}
    (h : OnlyOne kind names name) (same : ∀ n ∈ names, kind n ↔ kind' n) :
    OnlyOne kind' names name := by
  have there := h.mem
  obtain ⟨is, before, after, rfl, others⟩ := h
  refine ⟨(same name there).mp is, before, after, rfl, fun other among is => ?_⟩
  refine others other among ((same other ?_).mpr is)
  simp only [List.mem_append, List.mem_cons] at among ⊢
  tauto

theorem onlyOne_filter {test : String → Bool} {names : List String} :
    OnlyOne (test · = true) names name ↔ names.filter test = [name] := by
  rw [List.filter_eq_cons_iff]
  constructor
  · rintro ⟨is, before, after, rfl, others⟩
    refine ⟨before, after, rfl, fun x among => others x (by simp [among]), is, ?_⟩
    exact List.filter_eq_nil_iff.mpr fun x among => others x (by simp [among])
  · rintro ⟨before, after, rfl, none, is, nothing⟩
    refine ⟨is, before, after, rfl, fun other among => ?_⟩
    rcases List.mem_append.mp among with among | among
    · exact none other among
    · exact List.filter_eq_nil_iff.mp nothing other among

theorem countedVersion_iff {version entry : String} :
    countedVersion id entry = some version ↔ EntryFor id version entry := by
  unfold countedVersion
  simp only [Option.bind_eq_some_iff, Text.stripPrefix_eq_some, Prod.exists,
    Text.splitOnce_eq_some]
  constructor
  · rintro ⟨rest, rfl, front, counter, ⟨clean, rfl⟩, chosen⟩
    split at chosen
    · rename_i ends
      obtain rfl := Option.some.inj chosen
      rw [Bool.and_eq_true] at ends
      exact ⟨ends.2, counter, by simp [String.append_assoc], ends.1⟩
    · cases chosen
  · rintro ⟨valid, counter, rfl, ends⟩
    have clean : '+' ∉ version.toList := fun there =>
      absurd (versionValid_char valid there) (by decide)
    refine ⟨version ++ "+" ++ counter, by simp [String.append_assoc], version, counter,
      ⟨clean, rfl⟩, ?_⟩
    rw [if_pos (by rw [ends, valid]; rfl)]

/-- The agent counts one entry exactly where one is named like that. -/
theorem counted_iff {version : String} {entries : List String} :
    entries.filterMap (countedVersion id) = [version] ↔
      ∃ entry, OnlyOne (fun e => ∃ v, EntryFor id v e) entries entry ∧
        EntryFor id version entry := by
  have none : ∀ e, countedVersion id e = none ↔ ¬ ∃ v, EntryFor id v e := by
    intro e
    rw [Option.eq_none_iff_forall_ne_some, not_exists]
    exact forall_congr' fun v => not_congr countedVersion_iff
  rw [List.filterMap_eq_cons_iff]
  constructor
  · rintro ⟨before, entry, after, rfl, skipped, counted, nothing⟩
    have counted := countedVersion_iff.mp counted
    refine ⟨entry, ⟨⟨version, counted⟩, before, after, rfl, fun other among => ?_⟩, counted⟩
    rcases List.mem_append.mp among with among | among
    · exact (none other).mp (skipped other among)
    · exact (none other).mp (List.filterMap_eq_nil_iff.mp nothing other among)
  · rintro ⟨entry, ⟨-, before, after, rfl, others⟩, counted⟩
    refine ⟨before, entry, after, rfl, fun x among => (none x).mpr (others x (by simp [among])),
      countedVersion_iff.mpr counted, ?_⟩
    exact List.filterMap_eq_nil_iff.mpr fun x among => (none x).mpr (others x (by simp [among]))

theorem EntryFor.reads {version entry : String} (h : EntryFor id version entry) :
    Reads id version entry := by
  obtain ⟨valid, counter, rfl, -⟩ := h
  exact ⟨fun there => absurd (versionValid_char valid there) (by decide), counter, rfl⟩

theorem Reads.beforeFirst {version entry : String} (h : Reads id version entry) :
    Shell.beforeFirst (Shell.withoutPrefix entry (id ++ "_")) '+' = version := by
  obtain ⟨clean, rest, rfl⟩ := h
  have cut : Text.stripPrefix (id ++ "_" ++ version ++ "+" ++ rest) (id ++ "_") =
      some (version ++ "+" ++ rest) := Text.stripPrefix_eq_some.mpr (by simp [String.append_assoc])
  have chars : (version ++ "+" ++ rest).toList = version.toList ++ '+' :: rest.toList := by simp
  have before : ∀ d ∈ version.toList, decide (d ≠ '+') = true := by
    intro d hd
    simpa using fun he : d = '+' => clean (he ▸ hd)
  rw [Shell.withoutPrefix, cut, Option.getD_some, Shell.beforeFirst, chars,
    List.takeWhile_append_of_pos before]
  simp

theorem Reads.unique {version version' entry : String} (h : Reads id version entry)
    (h' : Reads id version' entry) : version = version' :=
  h.beforeFirst.symm.trans h'.beforeFirst

/-- What the pattern takes has a version to read. -/
theorem reads_of_isCounted {entry : String} (counted : isCounted id entry = true) :
    ∃ version, Reads id version entry := by
  simp only [isCounted, Shell.glob, Bool.and_eq_true, List.isPrefixOf_iff_prefix] at counted
  obtain ⟨⟨⟨rest, chars⟩, found⟩, -⟩ := counted
  rw [← chars, List.drop_left] at found
  obtain ⟨tail, tails, plus⟩ := List.any_eq_true.mp found
  rw [Bool.and_eq_true, List.isPrefixOf_iff_prefix] at plus
  have there : '+' ∈ rest := by
    refine ((List.mem_tails _ _).mp tails).subset (plus.1.subset ?_)
    decide
  obtain ⟨front, back, rfl, clean⟩ := List.eq_append_cons_of_mem there
  refine ⟨String.ofList front, by simpa using clean, String.ofList back, ?_⟩
  apply String.toList_inj.mp
  rw [← chars]
  simp

/-- The version that the script takes for the pending one. -/
theorem pendingBaseVersion_iff {isFile : String → Bool} {entries : List String} {version : String} :
    pendingBaseVersion id isFile entries = some version ↔
      ∃ entry, OnlyOne (isCounted id · = true) entries entry ∧ isFile entry = true ∧
        Reads id version entry := by
  unfold pendingBaseVersion
  constructor
  · intro taken
    split at taken
    · rename_i entry only
      split at taken
      · rename_i file
        obtain rfl := Option.some.inj taken
        have only := onlyOne_filter.mpr only
        obtain ⟨version, reads⟩ := reads_of_isCounted only.1
        exact ⟨entry, only, file, reads.beforeFirst ▸ reads⟩
      · cases taken
    · cases taken
  · rintro ⟨entry, only, file, reads⟩
    rw [onlyOne_filter.mp only]
    dsimp only
    rw [if_pos file, reads.beforeFirst]

end

section
variable {env : Environment} {running id : String} {expand : String → List String}
  {isFile : String → Bool} {w : Node}

theorem pendingBaseVersion_ok_iff (readable : env.bootEntriesReadable w = true)
    (named : imageId w = some id) {p : String} :
    (∃ u, Agent.pendingBaseVersion env w = .ok (some p) u) ↔
      w.bootEntries.filterMap (countedVersion id) = [p] := by
  unfold Agent.pendingBaseVersion
  simp only [named, readable, if_true]
  rcases w.bootEntries.filterMap (countedVersion id) with _ | ⟨v, _ | ⟨v', rest⟩⟩
  · simp
  · simp
  · simp

theorem takenFor_present {name : String} (plain : Plain running) (h : Present running w name) :
    TakenFor running w (name ++ "_" ++ running ++ ".raw") :=
  ⟨h.2.2, isImage_scoped h.1 running, by rw [nameAndBase_scoped plain]⟩

theorem sought_present {name : String} (plain : Plain running)
    (literal : ∀ word : String, (∀ c ∈ word.toList, Shell.isPattern c = false) →
      expand word = [word])
    (h : Present running w name) : Sought running expand w name := by
  refine ⟨_, takenFor_present plain h, name, ?_, ?_⟩
  · rw [nameAndBase_scoped plain, fields_valid h.1]
    exact List.mem_singleton_self name
  · rw [literal name fun c hc => (versionValid_literal h.1 hc).2]
    exact List.mem_singleton_self name

theorem takenFor_iff {file : String} : TakenFor running w file ↔ file ∈ w.extensions.keys ∧
    (isImage file && (nameAndBase running file).2 == running) = true := by
  rw [TakenFor, Bool.and_eq_true, beq_iff_eq, Std.ExtTreeMap.mem_keys,
    Std.ExtTreeMap.mem_iff_isSome_getElem?]
  rfl

theorem sought_iff {name : String} : Sought running expand w name ↔
    name ∈ (Shell.fields (installed running w.extensions.keys)).flatMap expand := by
  rw [fields_installed]
  constructor
  · rintro ⟨file, taken, field, among, expanded⟩
    obtain ⟨there, test⟩ := takenFor_iff.mp taken
    exact List.mem_flatMap.mpr
      ⟨field, List.mem_flatMap.mpr ⟨file, List.mem_filter.mpr ⟨there, test⟩, among⟩, expanded⟩
  · intro there
    obtain ⟨field, among, expanded⟩ := List.mem_flatMap.mp there
    obtain ⟨file, kept, among⟩ := List.mem_flatMap.mp among
    obtain ⟨there, test⟩ := List.mem_filter.mp kept
    exact ⟨file, takenFor_iff.mpr ⟨there, test⟩, field, among, expanded⟩

theorem lets_iff : requirePendingExtensions running id expand isFile w = true ↔
    (∀ file, ¬ TakenFor running w file) ∨ ∃ v, pendingBaseVersion id isFile w.bootEntries = some v ∧
      ∀ name, Sought running expand w name → w.fileExists (scopedActivePath name v) = true := by
  have nothing : (installed running w.extensions.keys).isEmpty = true ↔
      ∀ file, ¬ TakenFor running w file := by
    rw [installed_isEmpty]
    refine forall_congr' fun file => ?_
    rw [takenFor_iff, not_and, Bool.not_eq_true]
  unfold requirePendingExtensions
  dsimp only
  split
  · rename_i empty
    exact iff_of_true rfl (Or.inl (nothing.mp empty))
  · rename_i found
    rw [or_iff_right (fun none => found (nothing.mpr none))]
    cases pending : pendingBaseVersion id isFile w.bootEntries with
    | none => simp
    | some v =>
      simp only [List.all_eq_true, ← sought_iff, Option.some.injEq, exists_eq_left']

/-- The script stops exactly where something is missing. -/
theorem stops_iff : ¬ requirePendingExtensions running id expand isFile w = true ↔
    Missing running id expand isFile w := by
  rw [lets_iff, not_or, not_forall]
  simp only [not_not, Missing, pendingBaseVersion_iff]
  refine and_congr_right fun _ => ⟨fun stops v entry only file reads => ?_, ?_⟩
  · by_contra all
    refine stops ⟨v, ⟨entry, only, file, reads⟩, fun name sought => ?_⟩
    by_contra absent
    exact all ⟨name, sought, Bool.not_eq_true _ ▸ absent⟩
  · rintro missing ⟨v, ⟨entry, only, file, reads⟩, all⟩
    obtain ⟨name, sought, absent⟩ := missing v entry only file reads
    rw [all name sought] at absent
    cases absent

theorem provided_iff (readable : env.bootEntriesReadable w = true) (named : imageId w = some id) :
    (∃ p u, Agent.pendingBaseVersion env w = .ok (some p) u ∧
      ∀ name, Present running w name → w.fileExists (scopedActivePath name p) = true) ↔
        Provided running id w := by
  constructor
  · rintro ⟨p, u, reported, staged⟩
    obtain ⟨entry, only, counted⟩ :=
      counted_iff.mp ((pendingBaseVersion_ok_iff readable named).mp ⟨u, reported⟩)
    exact ⟨p, entry, only, counted, staged⟩
  · rintro ⟨p, entry, only, counted, staged⟩
    obtain ⟨u, reported⟩ := (pendingBaseVersion_ok_iff readable named).mpr
      (counted_iff.mpr ⟨entry, only, counted⟩)
    exact ⟨p, u, reported, staged⟩

/-- Where the names are read alike, an update that the script lets through has its images. -/
theorem strict_of_alike (readable : env.bootEntriesReadable w = true)
    (named : imageId w = some id)
    (literal : ∀ word : String, (∀ c ∈ word.toList, Shell.isPattern c = false) →
      expand word = [word])
    (alike : ReadAlike running id w) : Strict env running id expand isFile w := by
  obtain ⟨plain, entries⟩ := alike
  rintro lets ⟨name, present⟩
  rcases lets_iff.mp lets with nothing | ⟨v, pending, all⟩
  · exact absurd (takenFor_present plain present) (nothing _)
  obtain ⟨entry, only, -, reads⟩ := pendingBaseVersion_iff.mp pending
  refine (provided_iff readable named).mpr ⟨v, entry, only.congr entries, ?_,
    fun other h => all other (sought_present plain literal h)⟩
  obtain ⟨p, counted⟩ := (entries entry only.mem).mp only.1
  rw [reads.unique counted.reads]
  exact counted

end

/-- A node of a base with an update pending. -/
def updated (running : String) : Node :=
  { osRelease := some ("IMAGE_ID=carbideos\nVERSION_ID=" ++ running),
    bootEntries := ["carbideos_0.5+3-0.efi", "carbideos_0.3.efi"] }

/-- A node with the images of given names put in place. -/
def withImages (w : Node) (files : List String) : Node :=
  { w with extensions := files.foldl (fun d file => d.insert file []) ∅ }

/-- Two extensions with images for the running base and for the pending one. -/
def stocked : Node :=
  withImages (updated "0.4")
    ["chrome_0.4.raw", "chrome_0.5.raw", "watchtower_0.4.raw", "watchtower_0.5.raw"]

end CarbideOS.Ops
