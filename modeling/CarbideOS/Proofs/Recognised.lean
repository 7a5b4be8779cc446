import CarbideOS.Lib.OsRelease
import CarbideOS.Proofs.Arrival
import CarbideOS.Proofs.Calm

namespace CarbideOS.Agent
open Interruptible OsRelease

/-- What is reported of a file: its assignments in order, unquoted. -/
def reported (file : OsRelease.File) : List String :=
  file.assignments.map fun a => String.ofList (a.key ++ '=' :: a.unquoted)

/-- The assignments of an extension's own version. -/
def versionAssignments (file : OsRelease.File) : List Assignment :=
  file.assignments.filter fun a => a.key == "SYSEXT_VERSION_ID".toList

/-- An assignment at the start of its line, of a usable version, without single quotes and
backslashes. -/
def Legible (a : Assignment) : Bool :=
  a.indent.isEmpty && a.isPlain && versionValid (String.ofList a.unquoted)

/-- The first legible assignment is of the same version as the first of all. -/
def ReadAlike (file : OsRelease.File) : Prop :=
  ∃ first a, (versionAssignments file).head? = some first ∧
    (versionAssignments file).find? Legible = some a ∧
    String.ofList a.unquoted = Text.trimBy (· == '"') (String.ofList first.unquoted)

/-- What a line of the file in the merged tree gives. -/
def versionOnLine (line : String) : Option String :=
  ((Text.stripPrefix line "SYSEXT_VERSION_ID=").map fun value =>
    Text.trimBy (· == '"') (Text.trim value)).filter versionValid

section
variable {a : Assignment} {value : String}

/-- The line of an assignment starts with the key exactly if it is of that key and not
indented. -/
theorem stripPrefix_written : Text.stripPrefix (String.ofList a.written) "SYSEXT_VERSION_ID=" =
    some value ↔ a.indent = [] ∧ a.key = "SYSEXT_VERSION_ID".toList ∧
      value = String.ofList (a.quoting.quote ++ a.value.flatMap Mark.written ++ a.quoting.quote ++
        a.tail) := by
  rw [Text.stripPrefix_eq_some]
  constructor
  · intro h
    have chars := congrArg String.toList h
    simp only [String.toList_ofList, String.toList_append, Assignment.written] at chars
    have blank : ∀ c ∈ a.indent, isBlank c = true := fun c hc =>
      List.all_eq_true.mp a.blanks c (List.mem_append_left _ hc)
    have clean : '=' ∉ a.indent ++ a.key := by
      intro there
      rcases List.mem_append.mp there with there | there
      · exact absurd (blank _ there) (by decide)
      · exact absurd (List.all_eq_true.mp a.named _ there) (by decide)
    have start : "SYSEXT_VERSION_ID".toList ++ '=' :: [] <+:
        (a.indent ++ a.key) ++ '=' :: (a.quoting.quote ++ a.value.flatMap Mark.written ++
          a.quoting.quote ++ a.tail) := by
      rw [chars]
      exact List.prefix_append _ _
    obtain ⟨name, -⟩ := Text.field_of_prefix (by decide) clean start
    have indent : a.indent = [] := by
      cases hi : a.indent with
      | nil => rfl
      | cons c rest =>
        rw [hi] at name
        have first : 'S' = c := (List.cons.inj name).1
        have no := blank c (by rw [hi]; exact List.mem_cons_self)
        rw [← first] at no
        exact absurd no (by decide)
    rw [indent, List.nil_append] at name chars
    refine ⟨indent, name.symm, String.toList_inj.mp ?_⟩
    rw [← name] at chars
    rw [String.toList_ofList]
    have same : "SYSEXT_VERSION_ID=".toList ++ (a.quoting.quote ++ a.value.flatMap Mark.written ++
        a.quoting.quote ++ a.tail) = "SYSEXT_VERSION_ID=".toList ++ value.toList := by
      simpa using chars
    exact (List.append_cancel_left same).symm
  · rintro ⟨indent, name, rfl⟩
    apply String.toList_inj.mp
    simp [Assignment.written, indent, name]

/-- The characters of a usable version. -/
theorem versionValid_mem {version : String} (h : versionValid version = true) {c : Char}
    (hc : c ∈ version.toList) : (c.isAlphanum || c == '.' || c == '_' || c == '-') = true := by
  simp only [versionValid, Bool.and_eq_true, List.all_eq_true] at h
  exact h.2 c hc

/-- The reading of a plain value is what it assigns. -/
theorem read_plain (plain : a.isPlain = true) :
    Text.trimBy (· == '"') (Text.trim (String.ofList (a.quoting.quote ++
      a.value.flatMap Mark.written ++ a.quoting.quote ++ a.tail))) = String.ofList a.unquoted := by
  simp only [Assignment.isPlain, Bool.and_eq_true, bne_iff_ne, List.all_eq_true,
    decide_eq_true_eq] at plain
  obtain ⟨notSingle, plain⟩ := plain
  have allowed := List.all_eq_true.mp a.allowed
  have tail : ∀ c ∈ a.tail, Text.isWhitespace c = true := by
    intro c hc
    have blank := List.all_eq_true.mp a.blanks c (List.mem_append_right _ hc)
    simp only [isBlank, Bool.or_eq_true, beq_iff_eq] at blank
    rcases blank with rfl | rfl <;> decide
  rw [written_of_plain plain]
  change Text.trimBy (· == '"') (Text.trim (String.ofList (a.quoting.quote ++ a.unquoted ++
    a.quoting.quote ++ a.tail))) = String.ofList a.unquoted
  cases hq : a.quoting with
  | single => exact absurd hq notSingle
  | bare =>
    have visible : ∀ c ∈ a.unquoted, Text.isWhitespace c = false ∧ (c == '"') = false := by
      intro c hc
      obtain ⟨m, hm, rfl⟩ := List.mem_map.mp hc
      have ok := allowed m hm
      rw [hq, plain m hm] at ok
      simp only [Quoting.allows, Bool.and_eq_true, Bool.not_eq_true', bne_iff_ne] at ok
      exact ⟨ok.1.1.1, by simpa using ok.1.1.2⟩
    have trimmed : Text.trim (String.ofList ([] ++ (a.unquoted ++ a.tail))) =
        String.ofList a.unquoted :=
      Text.trimBy_eq (by simp) tail (fun c hc => (visible c (List.mem_of_mem_head? hc)).1)
        fun c hc => (visible c (List.mem_of_mem_getLast? hc)).1
    have unquotes : Text.trimBy (· == '"') (String.ofList ([] ++ (a.unquoted ++ []))) =
        String.ofList a.unquoted :=
      Text.trimBy_eq (by simp) (by simp) (fun c hc => (visible c (List.mem_of_mem_head? hc)).2)
        fun c hc => (visible c (List.mem_of_mem_getLast? hc)).2
    simp only [List.nil_append, List.append_nil] at trimmed unquotes
    simp only [Quoting.quote, List.nil_append, List.append_nil]
    rw [trimmed, unquotes]
  | double =>
    have inner : ∀ c ∈ a.unquoted, (c == '"') = false := by
      intro c hc
      obtain ⟨m, hm, rfl⟩ := List.mem_map.mp hc
      have ok := allowed m hm
      rw [hq, plain m hm] at ok
      simp only [Quoting.allows, Bool.and_eq_true, bne_iff_ne] at ok
      simpa using ok.1.2
    have trimmed : Text.trim (String.ofList ([] ++ (('"' :: a.unquoted ++ ['"']) ++ a.tail))) =
        String.ofList ('"' :: a.unquoted ++ ['"']) :=
      Text.trimBy_eq (by simp) tail (fun c hc => Option.some.inj hc ▸ by decide) fun c hc => by
        rw [List.getLast?_concat] at hc
        rw [← Option.some.inj hc]
        decide
    have unquotes : Text.trimBy (· == '"') (String.ofList (['"'] ++ (a.unquoted ++ ['"']))) =
        String.ofList a.unquoted :=
      Text.trimBy_eq (by simp) (by simp) (fun c hc => inner c (List.mem_of_mem_head? hc))
        fun c hc => inner c (List.mem_of_mem_getLast? hc)
    simp only [List.nil_append] at trimmed
    simp only [Quoting.quote, List.singleton_append]
    rw [trimmed]
    exact unquotes

/-- A single quote or a backslash stays in what is read, and makes it unusable. -/
theorem read_marked (marked : a.isPlain = false) :
    versionValid (Text.trimBy (· == '"') (Text.trim (String.ofList (a.quoting.quote ++
      a.value.flatMap Mark.written ++ a.quoting.quote ++ a.tail)))) = false := by
  have stays : ∀ c, Text.isWhitespace c = false → (c == '"') = false →
      (c.isAlphanum || c == '.' || c == '_' || c == '-') = false →
      c ∈ a.quoting.quote ++ a.value.flatMap Mark.written ++ a.quoting.quote ++ a.tail →
      versionValid (Text.trimBy (· == '"') (Text.trim (String.ofList (a.quoting.quote ++
        a.value.flatMap Mark.written ++ a.quoting.quote ++ a.tail)))) = false := by
    intro c visible unquoted unusable hc
    have there : c ∈ (String.ofList (a.quoting.quote ++ a.value.flatMap Mark.written ++
        a.quoting.quote ++ a.tail)).toList := by simpa using hc
    have still := Text.mem_trimBy (p := fun c => c == '"') (Text.mem_trimBy there visible) unquoted
    rw [Bool.eq_false_iff]
    intro valid
    rw [versionValid_mem valid still] at unusable
    cases unusable
  rcases marked_of_not_plain marked with quote | slash
  · exact stays '\'' (by decide) (by decide) (by decide) (by simp [quote])
  · exact stays '\\' (by decide) (by decide) (by decide) (by simp [slash])

/-- A line of the file gives a version exactly if it assigns it legibly. -/
theorem versionOnLine_assignment : versionOnLine (String.ofList a.written) =
    if a.key == "SYSEXT_VERSION_ID".toList && Legible a then some (String.ofList a.unquoted)
    else none := by
  unfold versionOnLine
  by_cases here : a.indent = [] ∧ a.key = "SYSEXT_VERSION_ID".toList
  · obtain ⟨indent, key⟩ := here
    rw [stripPrefix_written.mpr ⟨indent, key, rfl⟩, Option.map_some, Option.filter_some]
    cases plain : a.isPlain with
    | true =>
      rw [read_plain plain]
      simp [Legible, indent, key, plain]
    | false =>
      rw [read_marked plain]
      simp [Legible, plain]
  · have none_ : Text.stripPrefix (String.ofList a.written) "SYSEXT_VERSION_ID=" = none := by
      rw [Option.eq_none_iff_forall_ne_some]
      intro value found
      obtain ⟨indent, key, -⟩ := stripPrefix_written.mp found
      exact here ⟨indent, key⟩
    rw [none_, if_neg]
    · rfl
    · simp only [Bool.and_eq_true, beq_iff_eq, Legible, List.isEmpty_iff]
      rintro ⟨key, ⟨indent, -⟩, -⟩
      exact here ⟨indent, key⟩

theorem versionOnLine_remark (r : Remark) : versionOnLine (String.ofList r.text) = none := by
  have other : Text.stripPrefix (String.ofList r.text) "SYSEXT_VERSION_ID=" = none := by
    rw [Option.eq_none_iff_forall_ne_some]
    intro value found
    have chars := congrArg String.toList (Text.stripPrefix_eq_some.mp found)
    rw [String.toList_ofList, String.toList_append] at chars
    have first : r.text.head? = some 'S' := by rw [chars]; rfl
    rcases r.silent with blank | comment
    · have there := List.mem_of_mem_head? first
      exact absurd (List.all_eq_true.mp blank 'S' there) (by decide)
    · rw [first] at comment
      exact absurd comment (by decide)
  rw [versionOnLine, other]
  rfl

/-- The merged version is that of the first legible assignment. -/
theorem mergedVersionIn_written {file : OsRelease.File} {contents : String}
    (h : file.Written contents) : mergedVersionIn contents =
      ((versionAssignments file).find? Legible).map fun a => String.ofList a.unquoted := by
  have lines : mergedVersionIn contents =
      file.findSome? fun l => versionOnLine (String.ofList l.written) :=
    findSome?_lines (f := versionOnLine) rfl h
  rw [lines]
  clear lines h
  induction file with
  | nil => rfl
  | cons l file ih =>
    rw [List.findSome?_cons]
    cases l with
    | remark r =>
      have line : versionOnLine (String.ofList (Line.remark r).written) = none :=
        versionOnLine_remark r
      rw [line]
      exact ih
    | assign a =>
      have more : versionAssignments (.assign a :: file) =
          if a.key == "SYSEXT_VERSION_ID".toList then a :: versionAssignments file
          else versionAssignments file := by
        change List.filter _ (a :: OsRelease.File.assignments file) = _
        rw [List.filter_cons]
        rfl
      have line : versionOnLine (String.ofList (Line.assign a).written) = _ :=
        versionOnLine_assignment
      rw [line, more]
      cases key : a.key == "SYSEXT_VERSION_ID".toList with
      | false => simpa using ih
      | true =>
        cases legible : Legible a with
        | true => simp [legible]
        | false => simpa [legible] using ih

/-- Of an assignment as reported, only the own key counts for the version. -/
theorem assign_version (r : ImageRelease) (a : Assignment) :
    (r.assign (String.ofList (a.key ++ '=' :: a.unquoted))).version =
      if a.key == "SYSEXT_VERSION_ID".toList then
        r.version.or (some (Text.trimBy (· == '"') (String.ofList a.unquoted)))
      else r.version := by
  have named : ∀ key : String, '=' ∉ key.toList → ∀ value,
      Text.stripPrefix (String.ofList (a.key ++ '=' :: a.unquoted)) (key ++ "=") = some value ↔
        a.key = key.toList ∧ value = String.ofList a.unquoted := by
    intro key clean value
    have own : '=' ∉ a.key := fun there =>
      absurd (List.all_eq_true.mp a.named _ there) (by decide)
    rw [Text.stripPrefix_eq_some]
    constructor
    · intro h
      have chars := congrArg String.toList h
      simp only [String.toList_ofList, String.toList_append] at chars
      have start : key.toList ++ '=' :: [] <+: a.key ++ '=' :: a.unquoted := by
        rw [chars]
        exact List.prefix_append _ _
      obtain ⟨same, -⟩ := Text.field_of_prefix clean own start
      refine ⟨same.symm, String.toList_inj.mp ?_⟩
      rw [same] at chars
      rw [String.toList_ofList]
      have rest : (a.key ++ ['=']) ++ a.unquoted = (a.key ++ ['=']) ++ value.toList := by
        simpa using chars
      exact (List.append_cancel_left rest).symm
    · rintro ⟨same, rfl⟩
      apply String.toList_inj.mp
      simp [same]
  have base := named "VERSION_ID" (by decide)
  have version := named "SYSEXT_VERSION_ID" (by decide)
  unfold ImageRelease.assign
  by_cases key : a.key = "SYSEXT_VERSION_ID".toList
  · have notBase : Text.stripPrefix (String.ofList (a.key ++ '=' :: a.unquoted)) "VERSION_ID=" =
        none := by
      rw [Option.eq_none_iff_forall_ne_some]
      intro value found
      have same := ((base value).mp found).1
      rw [key] at same
      exact absurd same (by decide)
    rw [notBase, show Text.stripPrefix _ "SYSEXT_VERSION_ID=" = _ from (version _).mpr ⟨key, rfl⟩]
    simp [key]
  · have other : Text.stripPrefix (String.ofList (a.key ++ '=' :: a.unquoted))
        "SYSEXT_VERSION_ID=" = none := by
      rw [Option.eq_none_iff_forall_ne_some]
      intro value found
      exact key ((version value).mp found).1
    have off : (a.key == "SYSEXT_VERSION_ID".toList) = false := by simpa using key
    rw [other, off]
    cases Text.stripPrefix (String.ofList (a.key ++ '=' :: a.unquoted)) "VERSION_ID=" with
    | some value => rfl
    | none =>
      dsimp only
      cases Text.stripPrefix (String.ofList (a.key ++ '=' :: a.unquoted)) "SYSEXT_ID=" <;> rfl

/-- The staged version is that of the first assignment. -/
theorem parse_reported (file : OsRelease.File) :
    (parseSysextRelease (some (reported file))).version =
      (versionAssignments file).head?.map fun a =>
        Text.trimBy (· == '"') (String.ofList a.unquoted) := by
  have each : ∀ (l : List Assignment) (r : ImageRelease),
      ((l.map fun a => String.ofList (a.key ++ '=' :: a.unquoted)).foldl ImageRelease.assign
        r).version = r.version.or ((l.filter fun a => a.key == "SYSEXT_VERSION_ID".toList).head?.map
          fun a => Text.trimBy (· == '"') (String.ofList a.unquoted)) := by
    intro l
    induction l with
    | nil => intro r; simp
    | cons a l ih =>
      intro r
      rw [List.map_cons, List.foldl_cons, ih, assign_version, List.filter_cons]
      cases a.key == "SYSEXT_VERSION_ID".toList with
      | false => rfl
      | true => simp
  rw [parseSysextRelease, Option.getD_some, reported, each]
  rfl

end

section
variable {env : Environment} {name : String} {requested : Option String} {staging : Path}
  {w u w' : Node} {p : Placed}

/-- An image that is accepted for the running base is staged with the version that was
reported of it. -/
theorem validateAndPlace_version (h : validateAndPlace env name requested staging w = .ok p u)
    (running : p.forRunningBase = true) : ∃ bytes assignments v, w.readFile staging = some bytes ∧
      env.dissectRelease bytes w.tick = .ok assignments ∧
      (parseSysextRelease assignments).version = some v ∧ versionValid v = true ∧
      p.extensionVersion = some v := by
  rw [validateAndPlace_eq] at h
  obtain ⟨q, x, examined, h⟩ := Prog.bind_eq_ok.mp h
  obtain ⟨_, y, -, h⟩ := Prog.bind_eq_ok.mp h
  cases h
  obtain ⟨v, version, -⟩ := (examine_ok examined).version running
  obtain ⟨bytes, read, -⟩ := (examine_ok examined).accepted
  rw [examine, read_apply] at examined
  obtain ⟨_, v₁, h₁, examined⟩ := Prog.bind_eq_ok.mp examined
  obtain ⟨-, rfl⟩ := validateImage_ok h₁
  obtain ⟨release, v₂, h₂, examined⟩ := Prog.bind_eq_ok.mp examined
  obtain ⟨⟨assignments, inspected, rfl⟩, rfl⟩ := imageRelease_ok h₂
  obtain ⟨declared, v₃, -, examined⟩ := Prog.bind_eq_ok.mp examined
  rw [read_apply] at examined
  obtain ⟨target, v₄, -, examined⟩ := Prog.bind_eq_ok.mp examined
  obtain ⟨_, v₅, -, examined⟩ := Prog.bind_eq_ok.mp examined
  cases examined
  rw [read, Option.getD_some] at inspected
  have kept : (parseSysextRelease assignments).version.filter versionValid = some v := version
  obtain ⟨found, valid⟩ := Option.filter_eq_some_iff.mp kept
  exact ⟨bytes, assignments, v, read, inspected, found, valid, kept⟩

/-- An image was accepted for the running base. Its release file was reported as
os-release(5) has it, and is the one in the merged tree. Then the version that is merged
is known for the one that was staged exactly if the file reads alike both ways. -/
theorem staged_is_merged_iff (file : OsRelease.File) (contents : String)
    (written : file.Written contents)
    (accepted : validateAndPlace env name requested staging w = .ok p u)
    (running : p.forRunningBase = true)
    (reports : ∀ bytes, w.readFile staging = some bytes → ∀ x assignments,
      env.dissectRelease bytes x = .ok assignments → assignments = some (reported file))
    (merged : env.extensionRelease name w' = some contents) :
    ∃ v, p.extensionVersion = some v ∧
      ((mergedVersion env name : Act String (Option String)) w' = .ok (some v) w'.tick ↔
        ReadAlike file) := by
  obtain ⟨bytes, assignments, v, read, inspected, declared, valid, version⟩ :=
    validateAndPlace_version accepted running
  obtain rfl := reports bytes read _ _ inspected
  rw [parse_reported] at declared
  obtain ⟨first, head, rfl⟩ := Option.map_eq_some_iff.mp declared
  refine ⟨_, version, ?_⟩
  have found : (mergedVersion env name : Act String (Option String)) w' =
      .ok (mergedVersionIn contents) w'.tick := by
    change Outcome.ok ((env.extensionRelease name w').bind mergedVersionIn) w'.tick = _
    rw [merged]
    rfl
  rw [found, mergedVersionIn_written written]
  constructor
  · intro same
    obtain ⟨a, legible, alike⟩ := Option.map_eq_some_iff.mp (Outcome.ok.inj same).1
    exact ⟨first, a, head, legible, alike⟩
  · rintro ⟨first', a, head', legible, alike⟩
    obtain rfl := Option.some.inj (head.symm.trans head')
    rw [legible, Option.map_some, alike]

end

/-- A release file with one assignment of each kind. -/
def releaseFile (quoting : Quoting) (version : List Mark)
    (allowed : version.all quoting.allows = true) : OsRelease.File :=
  [.assign ⟨[], "VERSION_ID".toList, .bare, [.plain '1'], [], rfl, rfl, rfl⟩,
    .assign ⟨[], "SYSEXT_VERSION_ID".toList, quoting, version, [], rfl, rfl, allowed⟩,
    .assign ⟨[], "SYSEXT_ID".toList, .bare, [.plain 'n'], [], rfl, rfl, rfl⟩]

/-- A calm node whose images carry a release file. -/
def carrying (file : OsRelease.File) : Environment :=
  { calm twoVersions with
    dissectRelease := fun _ _ => .ok (some (reported file))
    extensionRelease := fun name w => (w.mergedImage name).map fun _ => file.text }

/-- A node of base 1 with a private copy. -/
def copied : Node := { Node.with "1" [] with staging := (∅ : Dir).insert "n.raw" [2] }

def doubleQuoted : OsRelease.File := releaseFile .double [.plain 'b'] rfl

def singleQuoted : OsRelease.File := releaseFile .single [.plain 'b'] rfl

/-- The node once the image is merged. -/
def mergedNode : Node := { Node.with "1" [] with merged := [("n_1", [2])] }

/-- What the image is placed as. -/
def placedB : Placed := ⟨⟨.extensions, "n_1.raw.b.candidate"⟩, "1", some "b", true⟩

theorem staged_is_merged_double : ∃ v, placedB.extensionVersion = some v ∧
    ((mergedVersion (carrying doubleQuoted) "n" : Act String (Option String)) mergedNode =
      .ok (some v) mergedNode.tick ↔ ReadAlike doubleQuoted) :=
  staged_is_merged_iff doubleQuoted doubleQuoted.text (.inl rfl)
    (Outcome.eq_ok (o := validateAndPlace (carrying doubleQuoted) "n" none ⟨.staging,
      "n.raw"⟩ copied)
      (a := placedB) (by decide +kernel))
    rfl (fun _ _ _ _ reported => (Except.ok.inj reported).symm) (by decide +kernel)

/-- An image whose version stands in single quotes is accepted, and has none once it is
merged. -/
theorem single_quotes_unrecognised :
    (validateAndPlace (carrying singleQuoted) "n" none ⟨.staging, "n.raw"⟩ copied).value =
      some placedB ∧
    (carrying singleQuoted).extensionRelease "n" mergedNode = some singleQuoted.text ∧
    (mergedVersion (carrying singleQuoted) "n" : Act String (Option String)) mergedNode =
      .ok none mergedNode.tick := by
  refine ⟨by decide +kernel, by decide +kernel, ?_⟩
  have nothing : ((carrying singleQuoted).extensionRelease "n" mergedNode).bind mergedVersionIn =
      none := by decide +kernel
  change Outcome.ok (((carrying singleQuoted).extensionRelease "n" mergedNode).bind
    mergedVersionIn) mergedNode.tick = _
  rw [nothing]

end CarbideOS.Agent
