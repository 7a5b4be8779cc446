import CarbideOS.Agent.Api

namespace CarbideOS.Agent

/-- The keys that every reply has or may have. -/
def fixedKeys : List String := ["ok", "protocol", "error"]

/-- A reply that says whether it worked, and why not if not. -/
structure Reply.WellFormed (r : Reply) : Prop where
  protocol : r.protocol = protocolVersion
  error : r.error.isSome = !r.isOk
  free : ∀ m ∈ r.data, m.1 ∉ fixedKeys
  sorted : (r.data.map Prod.fst).Pairwise (· < ·)

section
variable {r : Reply} {key : String} {value : Json.Value} {data : List (String × Json.Value)}

theorem mem_insertKey {m : String × Json.Value} (h : m ∈ insertKey key value data) :
    m = (key, value) ∨ m ∈ data := by
  induction data with
  | nil => exact .inl (List.mem_singleton.mp h)
  | cons d data ih =>
    rw [insertKey] at h
    split at h
    · rcases List.mem_cons.mp h with h | h
      · exact .inl h
      · exact .inr (List.mem_cons_of_mem _ h)
    · split at h
      · exact List.mem_cons.mp h
      · rcases List.mem_cons.mp h with h | h
        · exact .inr (h ▸ List.mem_cons_self)
        · exact (ih h).imp_right (List.mem_cons_of_mem _)

theorem insertKey_sorted (h : (data.map Prod.fst).Pairwise (· < ·)) :
    ((insertKey key value data).map Prod.fst).Pairwise (· < ·) := by
  induction data with
  | nil => exact List.pairwise_singleton _ _
  | cons d data ih =>
    obtain ⟨first, rest⟩ := List.pairwise_cons.mp h
    rw [insertKey]
    split
    · rename_i same
      subst same
      exact h
    · rename_i other
      split
      · rename_i before
        refine List.pairwise_cons.mpr ⟨?_, h⟩
        intro k member
        rcases List.mem_cons.mp member with rfl | member
        · exact before
        · exact before.trans (first k member)
      · rename_i notBefore
        have behind : d.1 < key := lt_of_le_of_ne (not_lt.mp notBefore) (Ne.symm other)
        refine List.pairwise_cons.mpr ⟨?_, ih rest⟩
        intro k member
        obtain ⟨m, inserted, rfl⟩ := List.mem_map.mp member
        rcases mem_insertKey inserted with rfl | old
        · exact behind
        · exact first _ (List.mem_map_of_mem old)

namespace Reply.WellFormed
variable {α : Type} [ToJson α]

theorem ok : Reply.ok.WellFormed := ⟨rfl, rfl, by simp [Reply.ok], List.Pairwise.nil⟩

theorem failed (f : Failure) : (Reply.failed f).WellFormed :=
  ⟨rfl, rfl, by simp [Reply.failed], List.Pairwise.nil⟩

theorem also (h : r.WellFormed) (free : key ∉ fixedKeys) (value : α) :
    (r.also key value).WellFormed := by
  refine ⟨h.protocol, h.error, ?_, insertKey_sorted h.sorted⟩
  intro m member
  rcases mem_insertKey member with rfl | old
  · exact free
  · exact h.free m old

theorem maybe (h : r.WellFormed) (free : key ∉ fixedKeys) (value : Option α) :
    (r.maybe key value).WellFormed := by
  cases value with
  | none => exact h
  | some value => exact h.also free value

end Reply.WellFormed
end

section
variable (formats : Formats) (services : Services) (request : Json.Value)
open Reply.WellFormed

theorem exclusiveReply_wellFormed {operation : Option Reply} {r : Reply}
    (h : ∀ r ∈ operation, r.WellFormed) (replied : exclusiveReply services operation = some r) :
    r.WellFormed := by
  unfold exclusiveReply at replied
  split at replied
  · split at replied
    · cases replied
    · cases replied
      exact failed _
    · exact h r replied
  · cases replied
    exact failed _
  · cases replied
    exact failed _

theorem stageExtensionReply_wellFormed :
    ∀ r ∈ stageExtensionReply formats services request, r.WellFormed := by
  intro r replied
  rw [Option.mem_def] at replied
  unfold stageExtensionReply at replied
  split at replied
  · cases replied
    exact failed _
  · simp only at replied
    split at replied
    · cases replied
      exact failed _
    · split at replied
      · cases replied
        exact failed _
      · obtain ⟨result, -, rfl⟩ := Option.map_eq_some_iff.mp replied
        cases result with
        | error failure => exact failed _
        | ok staged =>
          exact (((((ok.also (by decide) _).also (by decide) _).also (by decide) _).also
            (by decide) _).also (by decide) _).maybe (by decide) _

theorem activateExtensionReply_wellFormed :
    ∀ r ∈ activateExtensionReply services request, r.WellFormed := by
  intro r replied
  rw [Option.mem_def] at replied
  unfold activateExtensionReply at replied
  split at replied
  · cases replied
    exact failed _
  · split at replied
    · cases replied
      exact failed _
    · split at replied
      · cases replied
        exact failed _
      · obtain ⟨result, -, rfl⟩ := Option.map_eq_some_iff.mp replied
        cases result with
        | error failure => exact failed _
        | ok activation =>
          exact ((((ok.also (by decide) _).also (by decide) _).also (by decide) _).also
            (by decide) _).maybe (by decide) _

theorem stageBaseReply_wellFormed : ∀ r ∈ stageBaseReply services request, r.WellFormed := by
  intro r replied
  obtain ⟨result, -, rfl⟩ := Option.map_eq_some_iff.mp replied
  cases result with
  | error failure => exact failed _
  | ok staged => exact ((ok.maybe (by decide) _).also (by decide) _).maybe (by decide) _

theorem updateStatus_wellFormed : (updateStatus services).WellFormed := by
  unfold updateStatus
  split
  · exact (ok.maybe (by decide) _).also (by decide) _
  · exact failed _

theorem logs_wellFormed : (logs services request).WellFormed := by
  unfold logs
  simp only
  split
  · exact ((ok.also (by decide) _).maybe (by decide) _).also (by decide) _
  · exact failed _

theorem dispatch_wellFormed {r : Reply} (replied : dispatch formats services request = some r) :
    r.WellFormed := by
  unfold dispatch at replied
  split at replied
  · cases replied
    exact failed _
  split at replied
  · cases replied
    exact (((ok.also (by decide) _).also (by decide) _).also (by decide) _).maybe (by decide) _
  split at replied
  · cases replied
    exact updateStatus_wellFormed services
  split at replied
  · exact exclusiveReply_wellFormed services
      (stageExtensionReply_wellFormed formats services request)
      replied
  split at replied
  · exact exclusiveReply_wellFormed services (activateExtensionReply_wellFormed services request)
      replied
  split at replied
  · exact exclusiveReply_wellFormed services (stageBaseReply_wellFormed services request) replied
  split at replied
  · cases replied
    exact logs_wellFormed services request
  · cases replied
    exact failed _

/-- Under the lock, the reconcile comes back, and so does the operation after it. -/
def Services.LockedReturns (operation : Prop) : Prop :=
  services.tryAcquire = .ok true →
    ∃ result, services.reconcileState = some result ∧ (result = .ok () → operation)

/-- A staging that gets as far as the agent's own comes back. -/
def Services.StagingReturns : Prop :=
  ∀ name source, text request "name" = some name →
    (∀ base, text request "base" = some base → versionValid base = true) →
    requestedSource request = .ok source →
      (services.stageExtension name (text request "base") source).isSome = true

/-- An activation that gets as far as the agent's own comes back. -/
def Services.ActivationReturns : Prop :=
  ∀ name version, text request "name" = some name → text request "version" = some version →
    versionValid name = true → versionValid version = true →
      (services.activateExtension name version (text request "request_id")).isSome = true

/-- The agent does not abort in what a request asks for. -/
def Services.Returns : Prop :=
  (text request "command" = some "stage-extension" →
    services.LockedReturns (services.StagingReturns request)) ∧
  (text request "command" = some "activate-extension" →
    services.LockedReturns (services.ActivationReturns request)) ∧
  (text request "command" = some "stage-base" →
    services.LockedReturns ((services.stageBase (text request "version")).isSome = true))

theorem exclusiveReply_isSome {operation : Option Reply} :
    (exclusiveReply services operation).isSome = true ↔
      services.LockedReturns (operation.isSome = true) := by
  unfold exclusiveReply Services.LockedReturns
  cases services.tryAcquire with
  | error error => simp
  | ok free =>
    cases free with
    | false => simp
    | true =>
      cases services.reconcileState with
      | none => simp
      | some result => cases result <;> simp

theorem Services.LockedReturns.congr {p q : Prop} (h : p ↔ q) :
    services.LockedReturns p ↔ services.LockedReturns q := by
  rw [propext h]

theorem stageExtensionReply_isSome :
    (stageExtensionReply formats services request).isSome = true ↔
      services.StagingReturns request := by
  unfold stageExtensionReply Services.StagingReturns
  cases text request "name" with
  | none => simp
  | some name =>
    dsimp only
    cases text request "base" with
    | none => cases requestedSource request <;> simp
    | some base =>
      cases valid : versionValid base <;> cases requestedSource request <;> simp [valid]

theorem activateExtensionReply_isSome :
    (activateExtensionReply services request).isSome = true ↔
      services.ActivationReturns request := by
  unfold activateExtensionReply Services.ActivationReturns
  cases text request "name" with
  | none => simp
  | some name =>
    cases text request "version" with
    | none => simp
    | some version =>
      cases first : versionValid name <;> cases second : versionValid version <;>
        simp [first, second]

theorem dispatch_isSome :
    (dispatch formats services request).isSome = true ↔ services.Returns request := by
  unfold dispatch Services.Returns
  cases text request "command" with
  | none => simp
  | some command =>
    dsimp only
    by_cases staging : command = "stage-extension"
    · subst staging
      rw [if_neg (by decide), if_neg (by decide), if_pos rfl, exclusiveReply_isSome,
        Services.LockedReturns.congr services (stageExtensionReply_isSome formats services request)]
      simp
    by_cases activation : command = "activate-extension"
    · subst activation
      rw [if_neg (by decide), if_neg (by decide), if_neg (by decide), if_pos rfl,
        exclusiveReply_isSome,
        Services.LockedReturns.congr services (activateExtensionReply_isSome services request)]
      simp
    by_cases base : command = "stage-base"
    · subst base
      rw [if_neg (by decide), if_neg (by decide), if_neg (by decide),
        if_neg (by decide), if_pos rfl,
        exclusiveReply_isSome, stageBaseReply, Option.isSome_map]
      simp
    rw [if_neg staging, if_neg activation, if_neg base]
    refine iff_of_true ?_ ⟨?_, ?_, ?_⟩
    · split
      · rfl
      · split
        · rfl
        · split <;> rfl
    · exact fun same => absurd (Option.some.inj same) staging
    · exact fun same => absurd (Option.some.inj same) activation
    · exact fun same => absurd (Option.some.inj same) base

end

/-- The line is text. -/
def IsText (line : List UInt8) : Prop := ∃ chars, line = Text.utf8 chars

/-- JSON is written on one line, which is read as what was written. -/
def Formats.Compact (formats : Formats) : Prop :=
  ∀ v, ∃ chars, formats.toVec v = Text.utf8 chars ∧ '\n' ∉ chars ∧ Json.read chars = some v

/-- The command that a line names, when it is a request. -/
def commandOf (formats : Formats) (line : List UInt8) : Option String :=
  (Text.decode line).bind fun chars =>
    match formats.fromStr (Text.trim (String.ofList chars)).toList with
    | .ok request => text request "command"
    | .error _ => none

/-- The agent does not abort in what a line asks for, when it is a request. -/
def Services.LineReturns (services : Services) (formats : Formats) (line : List UInt8) : Prop :=
  ∀ chars request, Text.decode line = some chars →
    formats.fromStr (Text.trim (String.ofList chars)).toList = .ok request →
      services.Returns request

/-- One line, which is an object that says whether it worked, and why not if not. -/
structure OneObject (written : List UInt8) (members : List (String × Json.Value)) : Prop where
  line : ∃ chars, written = Text.utf8 chars ++ [10] ∧ '\n' ∉ chars ∧
    Json.read chars = some (.object members)
  once : (members.map Prod.fst).Nodup
  ok : ∃ b, members.lookup "ok" = some (.bool b) ∧ (members.lookup "error").isSome = !b
  protocol : members.lookup "protocol" = some (toJson protocolVersion)

/-- A member of the error that a reply carries. -/
def errorField (members : List (String × Json.Value)) (key : String) : Option Json.Value :=
  (members.lookup "error").bind fun error => error.get key

/-- A line is answered by one object, whose error tells what is no request and what is no
command. -/
def Answers (formats : Formats) (line written : List UInt8) : Prop :=
  ∃ members, OneObject written members ∧
    (commandOf formats line = none →
      errorField members "code" = some (toJson Code.malformed.wire)) ∧
    (∀ command, commandOf formats line = some command → command ∉ commands →
      errorField members "code" = some (toJson Code.unsupported.wire) ∧
        errorField members "supported" = some (toJson commands))

section
variable {formats : Formats} {services : Services} {r : Reply} {sent : List UInt8}

/-- The members of a reply. -/
def Reply.members (r : Reply) : List (String × Json.Value) :=
  [("ok", toJson r.isOk), ("protocol", toJson r.protocol)] ++ optional "error" r.error ++ r.data

theorem lookup_free {data : List (String × Json.Value)} {key : String}
    (free : ∀ m ∈ data, m.1 ∉ fixedKeys) (fixed : key ∈ fixedKeys) : data.lookup key = none := by
  rw [List.lookup_eq_none_iff]
  intro m member
  rw [bne_iff_ne]
  rintro rfl
  exact free m member fixed

theorem members_error (h : r.WellFormed) : r.members.lookup "error" = r.error.map toJson := by
  have data : r.data.lookup "error" = none := lookup_free h.free (by decide)
  cases error : r.error with
  | none => simp [Reply.members, optional, error, data, List.lookup_cons]
  | some f => simp [Reply.members, optional, error, List.lookup_cons]

theorem members_once (h : r.WellFormed) : (r.members.map Prod.fst).Nodup := by
  have data : (r.data.map Prod.fst).Nodup := h.sorted.imp ne_of_lt
  have apart : ∀ key ∈ fixedKeys, key ∉ r.data.map Prod.fst := by
    intro key fixed member
    obtain ⟨m, there, rfl⟩ := List.mem_map.mp member
    exact h.free m there fixed
  obtain ⟨keys, heads, once, fixed⟩ : ∃ keys, r.members.map Prod.fst = keys ++ r.data.map Prod.fst ∧
      keys.Nodup ∧ ∀ key ∈ keys, key ∈ fixedKeys := by
    cases error : r.error with
    | none => exact ⟨["ok", "protocol"],
      by simp [Reply.members, optional, error], by decide, by decide⟩
    | some f =>
      exact ⟨["ok", "protocol", "error"],
        by simp [Reply.members, optional, error], by decide, by decide⟩
  rw [heads, List.nodup_append]
  refine ⟨once, data, ?_⟩
  rintro key member other there rfl
  exact apart key (fixed key member) there

/-- A reply in JSON, with a newline, is one object on one line. -/
theorem oneObject (compact : formats.Compact) (h : r.WellFormed) :
    OneObject (formats.toVec (toJson r) ++ [10]) r.members := by
  obtain ⟨chars, bytes, line, read⟩ := compact (toJson r)
  refine ⟨⟨chars, by rw [bytes], line, read⟩, members_once h, ⟨r.isOk, rfl, ?_⟩, ?_⟩
  · rw [members_error h, Option.isSome_map, h.error]
  · rw [← h.protocol]
    rfl

theorem errorField_members (h : r.WellFormed) (key : String) :
    errorField r.members key = r.error.bind fun f => (toJson f).get key := by
  rw [errorField, members_error h, Option.bind_map]
  rfl

theorem errorField_code (h : r.WellFormed) {f : Failure} (error : r.error = some f) :
    errorField r.members "code" = some (toJson f.code.wire) := by
  rw [errorField_members h, error]
  rfl

theorem errorField_supported (h : r.WellFormed) {command : String}
    (error : r.error = some (Failure.unknown formats command)) :
    errorField r.members "supported" = some (toJson commands) := by
  rw [errorField_members h, error]
  rfl

theorem dispatch_noCommand {request : Json.Value} (h : text request "command" = none) :
    dispatch formats services request =
      some (.failed (Failure.new .malformed "request has no command")) := by
  rw [dispatch, h]

theorem dispatch_unknown {request : Json.Value} {command : String}
    (h : text request "command" = some command) (unknown : command ∉ commands) :
    dispatch formats services request = some (.failed (Failure.unknown formats command)) := by
  have other : ∀ c ∈ commands, command ≠ c := by
    rintro c member rfl
    exact unknown member
  rw [dispatch, h]
  simp only
  rw [if_neg (other _ (by decide)), if_neg (other _ (by decide)), if_neg (other _ (by decide)),
    if_neg (other _ (by decide)), if_neg (other _ (by decide)), if_neg (other _ (by decide))]

theorem not_answers_nil {line : List UInt8} : ¬Answers formats line [] := by
  rintro ⟨members, object, -⟩
  obtain ⟨chars, written, -⟩ := object.line
  simp at written

/-- What is no request is answered so. -/
theorem serveConnection_noRequest (compact : formats.Compact) {chars : List Char} {error : String}
    (line : readLine sent = some chars)
    (read : formats.fromStr (Text.trim (String.ofList chars)).toList = .error error) :
    Answers formats (firstLine sent) (serveConnection formats services sent) := by
  have decoded : Text.decode (firstLine sent) = some chars := line
  have none_ : commandOf formats (firstLine sent) = none := by simp [commandOf, decoded, read]
  have written : serveConnection formats services sent = formats.toVec (toJson (Reply.failed
      (Failure.new .malformed s!"unreadable request: {error}"))) ++ [10] := by
    rw [serveConnection, line]
    simp only [read]
  rw [written]
  refine ⟨_, oneObject compact (.failed _), fun _ => errorField_code (.failed _) rfl, ?_⟩
  intro command named
  rw [none_] at named
  cases named

/-- A request is answered when what it asks for comes back. -/
theorem serveConnection_request (compact : formats.Compact) {chars : List Char}
    {request : Json.Value} (line : readLine sent = some chars)
    (read : formats.fromStr (Text.trim (String.ofList chars)).toList = .ok request) :
    Answers formats (firstLine sent) (serveConnection formats services sent) ↔
      services.Returns request := by
  have decoded : Text.decode (firstLine sent) = some chars := line
  have named : commandOf formats (firstLine sent) = text request "command" := by
    simp [commandOf, decoded, read]
  rw [← dispatch_isSome formats services request]
  cases replied : dispatch formats services request with
  | none =>
    have silent : serveConnection formats services sent = [] := by
      rw [serveConnection, line]
      simp only [read, replied]
    rw [silent]
    exact iff_of_false not_answers_nil Bool.false_ne_true
  | some r =>
    have written : serveConnection formats services sent = formats.toVec (toJson r) ++ [10] := by
      rw [serveConnection, line]
      simp only [read, replied]
    have h := dispatch_wellFormed formats services request replied
    rw [written, Answers, named]
    refine iff_of_true ⟨_, oneObject compact h, fun none_ => ?_,
      fun command known unknown => ?_⟩ rfl
    · rw [dispatch_noCommand none_] at replied
      cases replied
      exact errorField_code h rfl
    · rw [dispatch_unknown known unknown] at replied
      cases replied
      exact ⟨errorField_code h rfl, errorField_supported h rfl⟩

end

/-- Compact JSON. -/
def compactJson : Formats where
  fromStr l := match Json.read l with
    | some v => .ok v
    | none => .error "expected value"
  toVec v := Text.utf8 (Json.print v)
  debug := String.quote

theorem compactJson_compact : compactJson.Compact :=
  fun v => ⟨Json.print v, rfl, Json.print_line v, Json.read_print v⟩

/-- An agent that nothing is asked of. -/
def idle : Services where
  agentVersion := "0.1.0"
  components := []
  osVersion := none
  availableBaseVersion := .ok none
  updatePending := false
  tryAcquire := .ok true
  reconcileState := some (.ok ())
  stageExtension _ _ _ := some (.error (Failure.new .failed ""))
  activateExtension _ _ _ := some (.error (Failure.new .failed ""))
  stageBase _ := some (.error (Failure.new .failed ""))
  journal _ _ _ _ := .ok ([], none)

/-- An activation, as a client asks for it. -/
def activateLine : List Char :=
  ("\x7b\"command\":\"activate-extension\",\"name\":\"n\"," ++ "\"version\":\"1\"\x7d\n").toList

end CarbideOS.Agent
