import CarbideOS.Agent.Record
import CarbideOS.Proofs.Published
import CarbideOS.Proofs.Calm

namespace CarbideOS.Agent

def fieldNames : List String :=
  ["required", "active_version", "known_good_version", "candidate_version", "phase", "request_id",
    "last_health", "last_failure", "terminal_os_version", "completed_requests"]

/-- The fields of an entry in any order, and members of other names between them. -/
def ExtensionState.WrittenAs (e : ExtensionState) (v : Json.Value) : Prop :=
  ∃ members, v = .object members ∧
    (members.filter fun m => fieldNames.contains m.1).Perm e.members

/-- The entries of a record in any order. -/
structure State.Lists (s : State) (entries : List (String × Json.Value)) : Prop where
  written : ∀ p ∈ entries, ∃ e, s.get p.1 = some e ∧ e.WrittenAs p.2
  all : ∀ name, (s.get name).isSome = true → name ∈ entries.map Prod.fst

/-- A list of the entries of a record, and members of other names beside it. -/
def State.WrittenAs (s : State) (v : Json.Value) : Prop :=
  ∃ members entries, v = .object members ∧
    (members.filter fun m => m.1 == "extensions") = [("extensions", .object entries)] ∧
    s.Lists entries

section
variable {e : ExtensionState} {s : State} {v : Json.Value} {key other : String} {α : Type}

theorem filter_optional [ToJson α] {value : Option α} :
    (optional other value).filter (fun m => m.1 == key) =
      if other == key then optional other value else [] := by
  cases value with
  | none => cases other == key <;> rfl
  | some value =>
    cases same : other == key with
    | false => simp [optional, same]
    | true => simp [optional, same]

theorem filter_unlessEmpty {items : List String} :
    (unlessEmpty other items).filter (fun m => m.1 == key) =
      if other == key then unlessEmpty other items else [] := by
  cases items with
  | nil => cases other == key <;> rfl
  | cons item items =>
    cases same : other == key with
    | false => simp [unlessEmpty, same]
    | true => simp [unlessEmpty, same]

theorem phase_of_wire (p : Phase) : fromJson (toJson p) = some p := by
  cases p <;> decide

section
variable {members : List (String × Json.Value)} {position : Nat}

theorem field_single [FromJson α] {value default : α} {written : Json.Value}
    (there : members.filter (fun m => m.1 == key) = [(key, written)])
    (read : fromJson written = some value) :
    field (.object members) position key default = some value := by
  rw [field, there]
  exact read

theorem field_optional {value : Option String}
    (there : members.filter (fun m => m.1 == key) = optional key value) :
    field (.object members) position key none = some value := by
  cases value with
  | none =>
    rw [field, there]
    rfl
  | some value =>
    have read : (fromJson (.string value) : Option (Option String)) = some (some value) := rfl
    exact field_single there read

theorem mapM_strings (items : List String) :
    (items.map Json.Value.string).mapM (fromJson : Json.Value → Option String) = some items := by
  induction items with
  | nil => rfl
  | cons item items ih =>
    rw [List.map_cons, List.mapM_cons, ih]
    rfl

theorem field_unlessEmpty {items : List String}
    (there : members.filter (fun m => m.1 == key) = unlessEmpty key items) :
    field (.object members) position key [] = some items := by
  cases items with
  | nil =>
    rw [field, there]
    rfl
  | cons item items => exact field_single there (mapM_strings (item :: items))

end

/-- Each field has at most one member, with the value of the field. -/
theorem fromJson_members (e : ExtensionState) :
    fromJson (Json.Value.object e.members) = some e := by
  have required : field (.object e.members) 0 "required" false = some e.required :=
    field_single (by simp [ExtensionState.members, filter_optional, filter_unlessEmpty]; rfl) rfl
  have activeVersion : field (.object e.members) 1 "active_version" none = some e.activeVersion :=
    field_optional (by simp [ExtensionState.members, filter_optional, filter_unlessEmpty])
  have knownGoodVersion : field (.object e.members) 2 "known_good_version" none =
      some e.knownGoodVersion :=
    field_optional (by simp [ExtensionState.members, filter_optional, filter_unlessEmpty])
  have candidateVersion : field (.object e.members) 3 "candidate_version" none =
      some e.candidateVersion :=
    field_optional (by simp [ExtensionState.members, filter_optional, filter_unlessEmpty])
  have phase : field (.object e.members) 4 "phase" .idle = some e.phase :=
    field_single (by simp [ExtensionState.members, filter_optional, filter_unlessEmpty])
      (phase_of_wire e.phase)
  have requestId : field (.object e.members) 5 "request_id" none = some e.requestId :=
    field_optional (by simp [ExtensionState.members, filter_optional, filter_unlessEmpty])
  have lastHealth : field (.object e.members) 6 "last_health" none = some e.lastHealth :=
    field_optional (by simp [ExtensionState.members, filter_optional, filter_unlessEmpty])
  have lastFailure : field (.object e.members) 7 "last_failure" none = some e.lastFailure :=
    field_optional (by simp [ExtensionState.members, filter_optional, filter_unlessEmpty])
  have terminalOsVersion : field (.object e.members) 8 "terminal_os_version" none =
      some e.terminalOsVersion :=
    field_optional (by simp [ExtensionState.members, filter_optional, filter_unlessEmpty])
  have completedRequests : field (.object e.members) 9 "completed_requests" [] =
      some e.completedRequests :=
    field_unlessEmpty (by simp [ExtensionState.members, filter_optional, filter_unlessEmpty])
  simp only [fromJson, required, activeVersion, knownGoodVersion, candidateVersion, phase,
    requestId, lastHealth, lastFailure, terminalOsVersion, completedRequests]
  rfl

theorem optional_keys [ToJson α] (value : Option α) :
    ((optional key value).map Prod.fst).Sublist [key] := by
  cases value with
  | none => exact List.nil_sublist _
  | some value => exact List.Sublist.refl _

theorem unlessEmpty_keys (items : List String) :
    ((unlessEmpty key items).map Prod.fst).Sublist [key] := by
  cases items with
  | nil => exact List.nil_sublist _
  | cons item items => exact List.Sublist.refl _

theorem members_keys (e : ExtensionState) : (e.members.map Prod.fst).Sublist fieldNames := by
  simp only [ExtensionState.members, List.map_append]
  have one_by_one : fieldNames = ["required"] ++ ["active_version"] ++ ["known_good_version"] ++
    ["candidate_version"] ++ ["phase"] ++ ["request_id"] ++ ["last_health"] ++ ["last_failure"] ++
    ["terminal_os_version"] ++ ["completed_requests"] := rfl
  rw [one_by_one]
  exact (((((((((List.Sublist.refl ["required"]).append (optional_keys e.activeVersion)).append
    (optional_keys e.knownGoodVersion)).append (optional_keys e.candidateVersion)).append
    (List.Sublist.refl ["phase"])).append (optional_keys e.requestId)).append
    (optional_keys e.lastHealth)).append (optional_keys e.lastFailure)).append
    (optional_keys e.terminalOsVersion)).append (unlessEmpty_keys e.completedRequests)

/-- Where every key is there once at most, so is a single one. -/
theorem length_filter_key {members : List (String × Json.Value)}
    (once : (members.map Prod.fst).Nodup) (key : String) :
    (members.filter fun m => m.1 == key).length ≤ 1 := by
  have keys : ((members.filter fun m => m.1 == key).map Prod.fst).Nodup :=
    once.sublist (List.Sublist.map _ List.filter_sublist)
  have same : ∀ k ∈ (members.filter fun m => m.1 == key).map Prod.fst, k = key := by
    intro k there
    obtain ⟨m, member, rfl⟩ := List.mem_map.mp there
    exact eq_of_beq (List.mem_filter.mp member).2
  have all := List.eq_replicate_of_mem same
  rw [all, List.nodup_replicate, List.length_map] at keys
  exact keys

/-- A field of an entry is what it is in the entry's own text. -/
theorem field_same [FromJson α] {members : List (String × Json.Value)} {position : Nat}
    {default : α} (known : fieldNames.contains key = true)
    (h : (members.filter fun m => fieldNames.contains m.1).Perm e.members) :
    field (.object members) position key default =
      field (.object e.members) position key default := by
  have own : (members.filter fun m => m.1 == key) =
      (members.filter fun m => fieldNames.contains m.1).filter fun m => m.1 == key := by
    rw [List.filter_filter]
    refine List.filter_congr fun m _ => ?_
    cases same : m.1 == key with
    | false => rfl
    | true => rw [eq_of_beq same, known, Bool.and_self]
  have perm := h.filter fun m => m.1 == key
  rw [← own] at perm
  have once := length_filter_key ((members_keys e).nodup (by decide)) key
  have equal : (members.filter fun m => m.1 == key) = e.members.filter fun m => m.1 == key := by
    rcases Nat.le_one_iff_eq_zero_or_eq_one.mp once with none_ | one
    · rw [List.length_eq_zero_iff] at none_
      rw [none_] at perm ⊢
      exact List.Perm.eq_nil perm
    · obtain ⟨m, single⟩ := List.length_eq_one_iff.mp one
      rw [single] at perm ⊢
      exact List.perm_singleton.mp perm
  rw [field, field, equal]

theorem ExtensionState.WrittenAs.read (h : e.WrittenAs v) : fromJson v = some e := by
  obtain ⟨members, rfl, perm⟩ := h
  have own := fromJson_members e
  simp only [fromJson] at own ⊢
  rw [field_same (by decide) perm, field_same (by decide) perm, field_same (by decide) perm,
    field_same (by decide) perm, field_same (by decide) perm, field_same (by decide) perm,
    field_same (by decide) perm, field_same (by decide) perm, field_same (by decide) perm,
    field_same (by decide) perm]
  exact own

theorem ExtensionState.writtenAs_toJson (e : ExtensionState) : e.WrittenAs (toJson e) := by
  refine ⟨e.members, rfl, ?_⟩
  rw [List.filter_eq_self.mpr]
  intro m member
  have known := (members_keys e).subset (List.mem_map_of_mem member)
  exact List.contains_iff_mem.mpr known

/-- The entries that were read, one for each of those listed. -/
theorem mapM_entries {entries : List (String × Json.Value)}
    (written : ∀ p ∈ entries, ∃ e, s.get p.1 = some e ∧ e.WrittenAs p.2) :
    ∃ read : List (String × ExtensionState),
      (entries.mapM fun m => (fromJson m.2).map fun e => (m.1, e)) = some read ∧
      read.map Prod.fst = entries.map Prod.fst ∧ ∀ p ∈ read, s.get p.1 = some p.2 := by
  induction entries with
  | nil => exact ⟨[], rfl, rfl, fun p there => nomatch there⟩
  | cons p entries ih =>
    rw [List.forall_mem_cons] at written
    obtain ⟨⟨e, recorded, said⟩, written⟩ := written
    obtain ⟨read, rest, keys, values⟩ := ih written
    refine ⟨(p.1, e) :: read, ?_, by rw [List.map_cons, List.map_cons, keys],
      List.forall_mem_cons.mpr ⟨recorded, values⟩⟩
    rw [List.mapM_cons, said.read, rest]
    rfl

theorem foldl_insert {read : List (String × ExtensionState)}
    (values : ∀ p ∈ read, s.get p.1 = some p.2) (map : Std.ExtTreeMap String ExtensionState)
    (name : String) :
    (read.foldl (fun map p => map.insert p.1 p.2) map)[name]? =
      if name ∈ read.map Prod.fst then s.get name else map[name]? := by
  induction read generalizing map with
  | nil => rfl
  | cons p read ih =>
    rw [List.forall_mem_cons] at values
    rw [List.foldl_cons, ih values.2, List.map_cons, Std.ExtTreeMap.getElem?_insert]
    by_cases later : name ∈ read.map Prod.fst
    · rw [if_pos later, if_pos (List.mem_cons_of_mem _ later)]
    · rw [if_neg later]
      by_cases here : p.1 = name
      · subst here
        rw [if_pos (Std.compare_self), if_pos List.mem_cons_self, values.1]
      · rw [if_neg (by simpa using here), if_neg]
        rintro (_ | ⟨_, there⟩)
        · exact here rfl
        · exact later there

theorem State.WrittenAs.read (h : s.WrittenAs v) : fromJson v = some s := by
  obtain ⟨members, entries, rfl, listed, lists⟩ := h
  obtain ⟨read, mapped, keys, values⟩ := mapM_entries lists.written
  have extensions : field (.object members) 0 "extensions" ∅ = some s.extensions := by
    refine field_single listed ?_
    simp only [fromJson] at mapped ⊢
    rw [mapped]
    refine congrArg some (Std.ExtTreeMap.ext_getElem? fun name => ?_)
    rw [foldl_insert values, keys]
    split
    · rfl
    · rename_i missing
      have gone : s.get name = none := by
        by_contra there
        exact missing (lists.all name (Option.isSome_iff_ne_none.mpr there))
      rw [Std.ExtTreeMap.getElem?_empty]
      exact gone.symm
  simp only [fromJson, extensions]
  rfl

theorem State.writtenAs_toJson (s : State) : s.WrittenAs (toJson s) := by
  refine ⟨_, _, rfl, rfl, ⟨fun p there => ?_, fun name there => ?_⟩⟩
  · obtain ⟨q, listed, rfl⟩ := List.mem_map.mp there
    exact ⟨q.2, Std.ExtTreeMap.mem_toList_iff_getElem?_eq_some.mp listed, q.2.writtenAs_toJson⟩
  · obtain ⟨e, recorded⟩ := Option.isSome_iff_exists.mp there
    have listed := Std.ExtTreeMap.mem_toList_iff_getElem?_eq_some.mpr recorded
    rw [List.map_map]
    exact List.mem_map.mpr ⟨(name, e), listed, rfl⟩

/-- A record is read back however its text is laid out, whatever the order of its members, and
with members that this version of the agent does not know. -/
theorem State.fromSlice_writtenAs (h : s.WrittenAs v) (y : Json.Layout) {blanks : List Char}
    (blank : ∀ c ∈ blanks, Json.isBlank c = true) :
    State.fromSlice (Text.utf8 (y.print 0 v ++ blanks)) = some s := by
  rw [State.fromSlice, Text.decode_utf8, Option.bind_some, y.read_print v blank, Option.bind_some,
    h.read]

/-- A record with one entry. -/
def requiredRecord : State :=
  State.entry {} "n" fun e => { e with required := true, phase := .active }

theorem State.fromSlice_writtenAs_later :
    State.fromSlice (Text.utf8 (Json.indented.print 0
      (.object [("schema", .null), ("extensions", .object [("n", .object
        [("phase", .string "active"), ("added", .array []), ("required", .bool true)])])]) ++
          ['\n'])) = some requiredRecord := by
  have entry : requiredRecord.get "n" = some { required := true, phase := .active } := by
    rw [requiredRecord, State.get_entry_self]
    rfl
  have only : ∀ name, (requiredRecord.get name).isSome = true → name = "n" := by
    intro name there
    by_contra other
    rw [requiredRecord, State.get_entry_of_ne other] at there
    cases there
  refine State.fromSlice_writtenAs ⟨_, _, rfl, rfl, ⟨?_, fun name there => ?_⟩⟩ Json.indented
    (by simp [Json.isBlank])
  · intro p there
    rw [List.mem_singleton.mp there]
    exact ⟨_, entry, _, rfl, List.Perm.swap _ _ _⟩
  · rw [only name there]
    exact List.mem_singleton_self _

theorem State.fromSlice_toVecPretty (s : State) :
    State.fromSlice (s.toVecPretty ++ [Publication.newline]) = some s := by
  have line :
      Text.utf8 (Json.pretty (toJson s) ++ ['\n']) = s.toVecPretty ++ [Publication.newline] := by
    rw [Text.utf8, List.flatMap_append]
    rfl
  rw [← line]
  exact State.fromSlice_writtenAs s.writtenAs_toJson Json.indented (by simp [Json.isBlank])

end
end CarbideOS.Agent

namespace CarbideOS.Publication
open Interruptible Storage

/-- A missing record is an empty one. -/
def ReadsAs (content : Option Bytes) (s : Agent.State) : Prop :=
  match content with
  | none => s = {}
  | some bytes => Agent.State.fromSlice bytes = some s

/-- Publications, removals and power loss, and what the record may be after them: what the last
store wrote that returned, or what a store tried since. -/
inductive Remembers (start : Disk) (first : Agent.State) : Disk → Set Agent.State → Prop where
  | start : Remembers start first start {first}
  | stored {d : Disk} {possible : Set Agent.State} (before : Remembers start first d possible)
      (faults : Faults) (time : Nat) (s : Agent.State)
      (returned : (store faults s.toVecPretty ⟨d, time⟩).isOk = true) :
      Remembers start first (store faults s.toVecPretty ⟨d, time⟩).state.disk {s}
  | tried {d : Disk} {possible : Set Agent.State} (before : Remembers start first d possible)
      (faults : Faults) (time : Nat) (s : Agent.State) :
      Remembers start first (store faults s.toVecPretty ⟨d, time⟩).state.disk (insert s possible)
  | copied {d : Disk} {possible : Set Agent.State} (before : Remembers start first d possible)
      (faults : Faults) (time : Nat) (source : Source) (target : Path) (maximum : UInt64)
      (other : target ≠ statePath) :
      Remembers start first (durableCopyFile faults source target maximum ⟨d, time⟩).state.disk
        possible
  | removed {d : Disk} {possible : Set Agent.State} (before : Remembers start first d possible)
      (p : Path) (other : p ≠ statePath) :
      Remembers start first (d.record p.folder (.unlink p.name)) possible
  | synced {d : Disk} {possible : Set Agent.State} (before : Remembers start first d possible)
      (f : Folder) : Remembers start first (d.syncFolder f) possible
  | crashed {d e : Disk} {possible : Set Agent.State} (before : Remembers start first d possible)
      (crash : d.Crash e) : Remembers start first e possible

/-- Now and after any power loss the record is one of those possible. -/
structure Recalls (possible : Set Agent.State) (d : Disk) : Prop where
  sound : d.Sound Staging
  rooted : d.Rooted stateDir
  now : ∃ s ∈ possible, ReadsAs (d.content statePath) s
  crash : ∀ e, d.Crash e → ∃ s ∈ possible, ReadsAs (e.content statePath) s

section
variable {possible wider : Set Agent.State} {d e : Disk} {target : Path} {new : Bytes}
  {watched : Path → Prop} {s : Agent.State}

/-- The record changes into something else that is possible, if at all. -/
theorem Recalls.becomes (h : Recalls possible d) (sound : e.Sound Staging)
    (lasting : ∀ f, d.lasting f = true → e.lasting f = true)
    (becomes : Disk.Becomes watched target new d e) (seen : watched statePath)
    (wide : possible ⊆ wider)
    (written : statePath = target → ∃ s ∈ wider, ReadsAs (some new) s) : Recalls wider e := by
  refine ⟨sound, h.rooted.mono lasting, ?_, fun e' crash => ?_⟩
  · rcases becomes.now statePath seen with same | ⟨here, content⟩
    · obtain ⟨s, member, reads⟩ := h.now
      exact ⟨s, wide member, by rw [same]; exact reads⟩
    · rw [content]
      exact written here
  · obtain ⟨d', crash', same⟩ := becomes.crash e' crash
    rcases same statePath seen with same | ⟨here, content⟩
    · obtain ⟨s, member, reads⟩ := h.crash d' crash'
      exact ⟨s, wide member, by rw [same]; exact reads⟩
    · rw [content]
      exact written here

theorem readsAs_stored (s : Agent.State) : ReadsAs (some (s.toVecPretty ++ [newline])) s :=
  s.fromSlice_toVecPretty

/-- A store that did not return leaves the old record or the new one. -/
theorem Recalls.tried (h : Recalls possible d) (faults : Faults) (time : Nat) :
    Recalls (insert s possible) (store faults s.toVecPretty ⟨d, time⟩).state.disk := by
  have kept : Kept statePath (s.toVecPretty ++ [newline]) d
      (store faults s.toVecPretty ⟨d, time⟩).state.disk :=
    store_settles.kept h.sound fun _ h => h.renamed.kept
  exact h.becomes kept.sound kept.lasting kept.becomes (Or.inl rfl) (Set.subset_insert s possible)
    fun _ => ⟨s, Set.mem_insert s possible, readsAs_stored s⟩

/-- One that returned leaves the new one, whatever happens. -/
theorem Recalls.stored (h : Recalls possible d) (faults : Faults) (time : Nat)
    (returned : (store faults s.toVecPretty ⟨d, time⟩).isOk = true) :
    Recalls {s} (store faults s.toVecPretty ⟨d, time⟩).state.disk := by
  have settles : Ensures (Kept statePath (s.toVecPretty ++ [newline]) d)
      (Kept statePath (s.toVecPretty ++ [newline]) d) (store faults s.toVecPretty)
      fun _ e => Settled statePath (s.toVecPretty ++ [newline]) d e ∧ True :=
    store_settles.mono fun _ _ h => ⟨h, trivial⟩
  obtain ⟨settled, -⟩ := settles.settled h.sound returned
  obtain ⟨now, later⟩ := settled.survives h.rooted
  have tried := h.tried (s := s) faults time
  refine ⟨tried.sound, tried.rooted, ⟨s, rfl, ?_⟩, fun e crash => ⟨s, rfl, ?_⟩⟩
  · rw [now]
    exact readsAs_stored s
  · rw [later e crash]
    exact readsAs_stored s

theorem Recalls.copied (h : Recalls possible d) (faults : Faults) (time : Nat) (source : Source)
    (maximum : UInt64) (other : target ≠ statePath) :
    Recalls possible (durableCopyFile faults source target maximum ⟨d, time⟩).state.disk := by
  have kept : Kept target source.val d
      (durableCopyFile faults source target maximum ⟨d, time⟩).state.disk :=
    durableCopyFile_settles.kept h.sound fun _ h => h.1.renamed.kept
  exact h.becomes kept.sound kept.lasting kept.becomes (Or.inr state_not_staging) (fun _ h => h)
    fun here => absurd here.symm other

theorem Recalls.removed (h : Recalls possible d) {p : Path} (other : p ≠ statePath) :
    Recalls possible (d.record p.folder (.unlink p.name)) := by
  have becomes : Disk.Becomes (· = statePath) p [] d (d.record p.folder (.unlink p.name)) :=
    Disk.Becomes.unlink other
  exact h.becomes (h.sound.unlink p.name) (fun _ h => h) becomes rfl (fun _ h => h)
    fun here => absurd here.symm other

theorem Recalls.synced (h : Recalls possible d) (f : Folder) :
    Recalls possible (d.syncFolder f) := by
  have lasting : ∀ g, d.lasting g = true → (d.syncFolder f).lasting g = true := by
    intro g lasts
    simp [Disk.syncFolder, lasts]
  have becomes : Disk.Becomes (· = statePath) ⟨[], ""⟩ [] d (d.syncFolder f) :=
    Disk.Becomes.syncFolder d f
  refine h.becomes (h.sound.syncFolder f) lasting becomes rfl (fun _ h => h) fun here => ?_
  exact absurd (congrArg Path.name here) (by decide)

theorem Recalls.crashed (h : Recalls possible d) (crash : d.Crash e) : Recalls possible e := by
  refine ⟨h.sound.crash crash, h.rooted.crash crash, h.crash e crash, fun e' again => ?_⟩
  rw [crash.settled again]
  exact h.crash e crash

theorem Remembers.recalls {start : Disk} {first : Agent.State} (begins : Recalls {first} start)
    (h : Remembers start first d possible) : Recalls possible d := by
  induction h with
  | start => exact begins
  | stored before faults time s returned ih => exact ih.stored faults time returned
  | tried before faults time s ih => exact ih.tried faults time
  | copied before faults time source target maximum other ih =>
    exact ih.copied faults time source maximum other
  | removed before p other ih => exact ih.removed other
  | synced before f ih => exact ih.synced f
  | crashed before crash ih => exact ih.crashed crash

theorem readFile_done {faults : Faults} {time : Nat} {p : Path} (made : faults.fate time = .done) :
    readFile faults p ⟨d, time⟩ =
      match d.content p with
      | none => .error .notFound ⟨d, time + 1⟩
      | some bytes => .ok bytes ⟨d, time + 1⟩ := by
  rw [readFile, perform, made]
  cases d.content p <;> rfl

/-- Where the file can be read at all, the record is what the file says. -/
theorem ReadsAs.load (h : ReadsAs (d.content statePath) s) {faults : Faults} {time : Nat}
    (made : faults.fate time = .done) (reason : Bytes → String) :
    load faults reason ⟨d, time⟩ = .ok s ⟨d, time + 1⟩ := by
  have read := readFile_done (d := d) (p := statePath) made
  cases content : d.content statePath with
  | none =>
    rw [content] at h read
    obtain rfl : s = {} := h
    have missing : (Prog.attempt (readFile faults statePath) : Io (Except IoError Bytes)) ⟨d,
        time⟩ =
        .ok (.error .notFound) ⟨d, time + 1⟩ := Prog.attempt_eq_ok.mpr (Or.inr ⟨_, rfl, read⟩)
    exact Prog.bind_of_ok missing _
  | some bytes =>
    rw [content] at h read
    have parsed : Agent.State.fromSlice bytes = some s := h
    have there : (Prog.attempt (readFile faults statePath) : Io (Except IoError Bytes)) ⟨d, time⟩ =
        .ok (.ok bytes) ⟨d, time + 1⟩ := Prog.attempt_eq_ok.mpr (Or.inl ⟨_, rfl, read⟩)
    refine (Prog.bind_of_ok there _).trans ?_
    simp only [parsed]
    rfl

/-- In every run from a record on disk, whatever fails and wherever power is lost, the record
that is read is what the last store wrote that returned, or what a store tried since. -/
theorem record_recalled {start : Disk} {first : Agent.State} (begins : Recalls {first} start)
    (h : Remembers start first d possible) {faults : Faults} {time : Nat}
    (made : faults.fate time = .done) (reason : Bytes → String) :
    ∃ s ∈ possible, load faults reason ⟨d, time⟩ = .ok s ⟨d, time + 1⟩ := by
  obtain ⟨s, member, reads⟩ := (h.recalls begins).now
  exact ⟨s, member, reads.load made reason⟩

end

/-- A file system with the directory of the record in place, and no record. -/
def installed : Disk where
  made f := f.isSuffixOf stateDir
  lasting f := f.isSuffixOf stateDir
  directory _ := .empty
  file _ := ⟨[], true⟩
  next := 0

theorem installed_recalls : Recalls {{}} installed := by
  have nothing : ∀ f l (a : String) i, (installed.directory f).World l → l a ≠ some i := by
    intro f l a i world there
    rw [Directory.world_settled.mp world] at there
    cases there
  have sound : installed.Sound Staging :=
    ⟨rfl, fun c up h => List.isSuffixOf_iff_suffix.mpr
        ((List.suffix_cons c up).trans (List.isSuffixOf_iff_suffix.mp h)), fun f h => h,
      fun f l a i world there => absurd there (nothing f l a i world),
      fun f l a b i world there => absurd there (nothing f l a i world),
      fun f g l l' a b i world _ there => absurd there (nothing f l a i world),
      fun f l a b i _ _ world there => absurd there (nothing f l b i world)⟩
  refine ⟨sound, by decide, ⟨{}, rfl, rfl⟩, fun e crash => ⟨{}, rfl, ?_⟩⟩
  obtain ⟨kept, listing, data, survives, rfl⟩ := crash
  rw [Disk.survivor_content]
  split
  · cases there : listing statePath.folder statePath.name with
    | none => rfl
    | some i => exact absurd there (nothing _ _ _ i (survives.world _))
  · rfl

/-- A store in which every call is made returns. -/
theorem calm_store_isOk {d : Disk} (sound : d.Sound Staging) (encoded : Bytes) :
    (store calm encoded ⟨d, 0⟩).isOk = true := by
  have succeeds : Succeeds (Ready d) (store calm encoded) fun _ => Finished d stateDir := calm_store
  have done := succeeds ⟨d, 0⟩ ⟨sound, rfl⟩
  cases there : store calm encoded ⟨d, 0⟩ with
  | ok u s => rfl
  | error error s =>
    rw [there] at done
    exact done.elim
  | halt s =>
    rw [there] at done
    exact done.elim

theorem record_recalled_stored :
    ∃ s ∈ ({Agent.requiredRecord} : Set Agent.State),
      load calm (fun _ => "")
        ⟨(store calm Agent.requiredRecord.toVecPretty ⟨installed, 0⟩).state.disk, 0⟩ =
        .ok s ⟨(store calm Agent.requiredRecord.toVecPretty ⟨installed, 0⟩).state.disk, 1⟩ :=
  record_recalled installed_recalls (.stored .start calm 0 Agent.requiredRecord
    (calm_store_isOk installed_recalls.sound _)) rfl _

section
variable {possible : Set Agent.State} {d e : Disk}

/-- After power loss there is one record that it can be. -/
theorem Recalls.settle (h : Recalls possible d) (crash : d.Crash e) :
    ∃ s ∈ possible, Recalls {s} e := by
  have left := h.crashed crash
  obtain ⟨s, member, reads⟩ := left.now
  refine ⟨s, member, left.sound, left.rooted, ⟨s, rfl, reads⟩, fun e' again => ⟨s, rfl, ?_⟩⟩
  rw [crash.settled again]
  exact reads

/-- A node's store that goes wrong, with the new record reached or not. -/
theorem store_fault (env : Agent.Environment) (w : Agent.Node) (halts reached : Bool) :
    let done := Agent.store
      { env with fault := fun _ _ => some ⟨halts, fun _ => reached, none, ""⟩ } w
    done.isOk = false ∧ done.failure.isSome = !halts ∧
      done.state.stored = if reached then w.memory else w.stored := by
  cases halts <;> cases reached <;> exact ⟨rfl, rfl, rfl⟩

/-- The endings of a store are those of the node's own store, and the file is then the node's
record: for good if the store returned or power was lost. -/
theorem store_refines {w : Agent.Node} (env : Agent.Environment) (recalls : Recalls {w.stored} d)
    (faults : Faults) (time : Nat) :
    let o := store faults w.memory.toVecPretty ⟨d, time⟩
    ∀ e, (e = o.state.disk ∨ o.state.disk.Crash e) → ∃ fault,
      let done := Agent.store { env with fault := fault } w
      done.isOk = o.isOk ∧ done.failure.isSome = o.failure.isSome ∧
        ReadsAs (e.content statePath) done.state.stored ∧
        (o.isOk = true ∨ o.state.disk.Crash e → Recalls {done.state.stored} e) := by
  intro o e left
  cases returned : o.isOk with
  | true =>
    have stored : Recalls {w.memory} o.state.disk := recalls.stored faults time returned
    have kept : Recalls {w.memory} e := by
      rcases left with rfl | crash
      · exact stored
      · exact stored.crashed crash
    obtain ⟨s, rfl, reads⟩ := kept.now
    obtain ⟨u, there⟩ := Outcome.ok_of_isOk returned
    refine ⟨fun _ _ => none, rfl, ?_, reads, fun _ => kept⟩
    rw [there]
    rfl
  | false =>
    have tried : Recalls (insert w.memory {w.stored}) o.state.disk := recalls.tried faults time
    have settled : ∃ s ∈ insert w.memory ({w.stored} : Set Agent.State),
        ReadsAs (e.content statePath) s ∧ (o.state.disk.Crash e → Recalls {s} e) := by
      rcases left with rfl | crash
      · by_cases again : o.state.disk.Crash o.state.disk
        · obtain ⟨s, member, kept⟩ := tried.settle again
          obtain ⟨t, rfl, reads⟩ := kept.now
          exact ⟨t, member, reads, fun _ => kept⟩
        · obtain ⟨s, member, reads⟩ := tried.now
          exact ⟨s, member, reads, fun crash => absurd crash again⟩
      · obtain ⟨s, member, kept⟩ := tried.settle crash
        obtain ⟨t, rfl, reads⟩ := kept.now
        exact ⟨t, member, reads, fun _ => kept⟩
    obtain ⟨s, member, reads, kept⟩ := settled
    have reached : ∃ r : Bool, (if r then w.memory else w.stored) = s := by
      rcases member with rfl | rfl
      · exact ⟨true, rfl⟩
      · exact ⟨false, rfl⟩
    obtain ⟨r, rfl⟩ := reached
    obtain ⟨failed, same, on_disk⟩ := store_fault env w o.failure.isNone r
    rw [Option.not_isNone] at same
    rw [← on_disk] at reads kept
    exact ⟨_, failed, same, reads, fun left => kept (left.resolve_left nofun)⟩

end

theorem store_refines_installed :
    let w : Agent.Node := { osRelease := none, memory := Agent.requiredRecord }
    let o := store calm w.memory.toVecPretty ⟨installed, 0⟩
    ∃ fault,
      let done := Agent.store { Agent.calm Agent.twoVersions with fault := fault } w
      done.isOk = o.isOk ∧ done.failure.isSome = o.failure.isSome ∧
        ReadsAs (o.state.disk.content statePath) done.state.stored ∧
        (o.isOk = true ∨ o.state.disk.Crash o.state.disk →
          Recalls {done.state.stored} o.state.disk) :=
  store_refines (Agent.calm Agent.twoVersions) installed_recalls calm 0 _ (Or.inl rfl)

end CarbideOS.Publication
