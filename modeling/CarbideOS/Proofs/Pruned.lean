import CarbideOS.Feed.Prune

namespace CarbideOS.Feed

theorem key_inj {c : Channel} {r s : String} : c.key r = c.key s ↔ r = s := by
  constructor
  · intro h
    exact Text.append_left_cancel h
  · rintro rfl
    rfl

theorem relative_eq_some {c : Channel} {key r : String} :
    c.relative key = some r ↔ key = c.key r ∧ '/' ∉ r.toList ∧ r ≠ "" := by
  simp [Channel.relative, Option.filter_eq_some_iff, Text.stripPrefix_eq_some, Channel.key]

theorem digit_of_toString {n : Nat} {d : Char} (h : d ∈ (toString n).toList) :
    d.isDigit = true := by
  have digits : (toString n).toList = Nat.toDigits 10 n := by simp
  rw [digits] at h
  exact Nat.isDigit_of_mem_toDigits (by decide) (by decide) h

theorem mem_of_splitOnP {p : Char → Bool} {l piece : List Char}
    (h : piece ∈ l.splitOnP p) {d : Char}
    (hd : d ∈ piece) : d ∈ l := by
  induction l generalizing piece with
  | nil =>
    rw [List.splitOnP_nil, List.mem_singleton] at h
    rw [h] at hd
    exact hd
  | cons x xs ih =>
    rw [List.splitOnP_cons_eq_if_modifyHead] at h
    split at h
    · rcases List.mem_cons.mp h with rfl | h
      · cases hd
      · exact List.mem_cons_of_mem _ (ih h hd)
    · cases hs : xs.splitOnP p with
      | nil => exact absurd hs (List.splitOnP_ne_nil p xs)
      | cons first rest =>
        rw [hs, List.modifyHead_cons] at h
        rcases List.mem_cons.mp h with rfl | h
        · rcases List.mem_cons.mp hd with rfl | hd
          · exact List.mem_cons_self
          · exact List.mem_cons_of_mem _ (ih (hs ▸ List.mem_cons_self) hd)
        · exact List.mem_cons_of_mem _ (ih (hs ▸ List.mem_cons_of_mem _ h) hd)

/-- A name without what a line is taken apart by. -/
def PlainName (r : String) : Prop :=
  r ≠ "" ∧ '\t' ∉ r.toList ∧ '\n' ∉ r.toList ∧ Text.startsWith r "-" = false

theorem readFields_plain {r size : String} (name : PlainName r)
    (digits : ∀ d ∈ size.toList, d ≠ '\t') : readFields (r ++ "\t" ++ size) = (r, size) := by
  obtain ⟨nonempty, tab, -, -⟩ := name
  have chars : (r ++ "\t" ++ size).toList = r.toList ++ '\t' :: size.toList := by simp
  have before : ∀ d ∈ r.toList, decide (d ≠ '\t') = true := by
    intro d hd
    simpa using fun same : d = '\t' => tab (same ▸ hd)
  have start : (r.toList ++ '\t' :: size.toList).dropWhile (· == '\t') =
      r.toList ++ '\t' :: size.toList := by
    cases hr : r.toList with
    | nil => exact absurd (String.toList_inj.mp (hr.trans rfl)) nonempty
    | cons d ds =>
      have first := before d (by simp [hr])
      simp only [decide_eq_true_eq] at first
      simp [first]
  have rest : size.toList.dropWhile (· == '\t') = size.toList := by
    cases hs : size.toList with
    | nil => rfl
    | cons d ds => simp [digits d (by simp [hs])]
  have finish : size.toList.rdropWhile (· == '\t') = size.toList := by
    rw [List.rdropWhile_eq_self_iff]
    intro some
    simpa using digits _ (List.getLast_mem some)
  simp only [readFields, chars, start, List.takeWhile_append_of_pos before,
    List.dropWhile_append_of_pos before]
  simp [rest, finish]

theorem readFields_slash {line : String} (h : '/' ∉ line.toList) :
    '/' ∉ (readFields line).1.toList := by
  intro slash
  apply h
  rw [readFields, String.toList_ofList] at slash
  exact (List.dropWhile_sublist _).mem ((List.takeWhile_sublist _).mem slash)

section
variable {p : Programs} {names lines : List String} {c : Channel} {manifest : String} {b : Bucket}

/-- What is found stale is named by a line, and is not to be kept unless its name
reads as options. -/
theorem mem_staleOf {lost : Nat} {found : List String} (h : staleOf p names lost lines = some found)
    {r : String} (hr : r ∈ found) : (∃ line ∈ lines, r = (readFields line).1) ∧
      (r ∈ names → Text.startsWith r "-" = true) := by
  induction lines generalizing lost found with
  | nil =>
    cases lost <;> cases h <;> cases hr
  | cons line rest ih =>
    cases lost with
    | succ lost =>
      obtain ⟨⟨l, hl, same⟩, unlisted⟩ := ih h hr
      exact ⟨⟨l, List.mem_cons_of_mem _ hl, same⟩, unlisted⟩
    | zero =>
      simp only [staleOf] at h
      split at h
      · obtain ⟨⟨l, hl, same⟩, unlisted⟩ := ih h hr
        exact ⟨⟨l, List.mem_cons_of_mem _ hl, same⟩, unlisted⟩
      · rename_i missing
        split at h
        · obtain ⟨more, hm, rfl⟩ := Option.map_eq_some_iff.mp h
          rcases List.mem_cons.mp hr with rfl | hr
          · refine ⟨⟨line, List.mem_cons_self, rfl⟩, fun listed => ?_⟩
            by_contra plain
            apply missing
            simp [kept, plain, listed]
          · obtain ⟨⟨l, hl, same⟩, unlisted⟩ := ih hm hr
            exact ⟨⟨l, List.mem_cons_of_mem _ hl, same⟩, unlisted⟩
        · cases h

/-- Where every line is a plain name and a size, exactly the unlisted names are stale. -/
theorem staleOf_plain (plain : ∀ line ∈ lines, Text.startsWith (readFields line).1 "-" = false ∧
    p.adds (readFields line).2 = true) :
    staleOf p names 0 lines =
      some ((lines.map fun line => (readFields line).1).filter fun r => !(names.contains r)) := by
  induction lines with
  | nil => rfl
  | cons line rest ih =>
    obtain ⟨name, size⟩ := plain line List.mem_cons_self
    have rest := ih fun l hl => plain l (List.mem_cons_of_mem _ hl)
    simp only [staleOf, kept, name, Bool.false_eq_true, if_false, size, if_true, rest]
    rw [List.map_cons, List.filter_cons]
    cases names.contains (readFields line).1 <;> rfl

theorem mem_deleted {keys : List String} {k : Nat} {key : String} :
    key ∈ b.deleted keys k ↔ key ∈ b ∧ key ∉ keys.take k := by
  unfold Bucket.deleted
  generalize keys.take k = gone
  induction gone generalizing b with
  | nil => simp
  | cons first gone ih =>
    rw [List.foldl_cons, ih]
    simp only [Std.ExtTreeMap.mem_erase, ne_eq, Std.LawfulEqCmp.compare_eq_iff_eq, List.mem_cons,
      not_or]
    constructor
    · rintro ⟨⟨other, there⟩, rest⟩
      exact ⟨there, fun same => other same.symm, rest⟩
    · rintro ⟨there, other, rest⟩
      exact ⟨⟨fun same => other same.symm, there⟩, rest⟩

/-- The lines of the listing come from the objects directly under the channel. -/
theorem mem_present {line : String} : line ∈ present c b ↔ ∃ key o r, b[key]? = some o ∧
    c.relative key = some r ∧ line ∈ ((r ++ "\t" ++ toString o.content.length).toList.splitOnP
      (· == '\n')).map String.ofList := by
  rw [present, List.mem_insertionSort, List.mem_flatMap]
  constructor
  · rintro ⟨entry, he, hl⟩
    obtain ⟨⟨key, o⟩, hp, hm⟩ := List.mem_filterMap.mp he
    obtain ⟨r, hr, rfl⟩ := Option.map_eq_some_iff.mp hm
    exact ⟨key, o, r, Std.ExtTreeMap.mem_toList_iff_getElem?_eq_some.mp hp, hr, hl⟩
  · rintro ⟨key, o, r, hp, hr, hl⟩
    exact ⟨_, List.mem_filterMap.mpr ⟨(key, o),
      Std.ExtTreeMap.mem_toList_iff_getElem?_eq_some.mpr hp,
      Option.map_eq_some_iff.mpr ⟨r, hr, rfl⟩⟩, hl⟩

/-- No line of the listing has a slash. -/
theorem present_slash {line : String} (h : line ∈ present c b) : '/' ∉ line.toList := by
  obtain ⟨key, o, r, -, relative, hl⟩ := mem_present.mp h
  obtain ⟨-, name, -⟩ := relative_eq_some.mp relative
  obtain ⟨piece, hp, rfl⟩ := List.mem_map.mp hl
  intro slash
  rw [String.toList_ofList] at slash
  have there := mem_of_splitOnP hp slash
  rw [String.toList_append, String.toList_append] at there
  simp only [List.mem_append] at there
  rcases there with (there | there) | there
  · exact name there
  · exact absurd there (by decide)
  · have digit := digit_of_toString there
    revert digit
    decide

/-- What a prune deletes is directly under the channel, and is kept by name only if it
reads as options. -/
theorem mem_prune {key : String} (h : key ∈ prune p c manifest b) : ∃ r, key = c.key r ∧
    '/' ∉ r.toList ∧ (r ∈ keep manifest → Text.startsWith r "-" = true) := by
  obtain ⟨r, hr, rfl⟩ := List.mem_map.mp h
  cases found : staleOf p (keep manifest) 0 (present c b) with
  | none =>
    rw [found] at hr
    cases hr
  | some stale =>
    rw [found] at hr
    obtain ⟨⟨line, hl, rfl⟩, unlisted⟩ := mem_staleOf found hr
    exact ⟨_, rfl, readFields_slash (present_slash hl), unlisted⟩

/-- Every object directly under the channel has a plain name. -/
def Plain (c : Channel) (b : Bucket) : Prop := ∀ key ∈ b, ∀ r, c.relative key = some r → PlainName r

/-- A plain name and a size are one line. -/
theorem plain_line {r : String} (name : PlainName r) (n : Nat) :
    ((r ++ "\t" ++ toString n).toList.splitOnP (· == '\n')).map String.ofList =
      [r ++ "\t" ++ toString n] := by
  have whole : ∀ d ∈ (r ++ "\t" ++ toString n).toList, (d == '\n') = false := by
    intro d hd
    rw [String.toList_append, String.toList_append] at hd
    simp only [List.mem_append] at hd
    rcases hd with (hd | hd) | hd
    · simpa using fun same : d = '\n' => name.2.2.1 (same ▸ hd)
    · obtain rfl : d = '\t' := by simpa using hd
      decide
    · have digit := digit_of_toString hd
      simpa using fun same : d = '\n' => absurd (same ▸ digit) (by decide)
  rw [List.splitOnP_eq_singleton whole, List.map_singleton, String.ofList_toList]

/-- Where all names are plain, the lines of the listing are the names and sizes. -/
theorem mem_present_plain (plain : Plain c b) {line : String} : line ∈ present c b ↔
    ∃ r o, b[c.key r]? = some o ∧ c.relative (c.key r) = some r ∧
      line = r ++ "\t" ++ toString o.content.length := by
  have named : ∀ {r o}, b[c.key r]? = some o → c.relative (c.key r) = some r → PlainName r := by
    intro r o there relative
    refine plain (c.key r) ?_ r relative
    rw [Std.ExtTreeMap.mem_iff_isSome_getElem?, there]
    rfl
  rw [mem_present]
  constructor
  · rintro ⟨key, o, r, there, relative, hl⟩
    obtain ⟨rfl, -, -⟩ := relative_eq_some.mp relative
    rw [plain_line (named there relative), List.mem_singleton] at hl
    exact ⟨r, o, there, relative, hl⟩
  · rintro ⟨r, o, there, relative, rfl⟩
    refine ⟨c.key r, o, r, there, relative, ?_⟩
    rw [plain_line (named there relative)]
    exact List.mem_singleton_self _

/-- Where all names are plain, exactly the unlisted objects are deleted. -/
theorem mem_prune_plain (adds : ∀ n : Nat, p.adds (toString n) = true) (plain : Plain c b)
    {r : String} : c.key r ∈ prune p c manifest b ↔
      c.relative (c.key r) = some r ∧ c.key r ∈ b ∧ r ∉ keep manifest := by
  have fields : ∀ {s : String}, c.key s ∈ b → c.relative (c.key s) = some s → ∀ n : Nat,
      readFields (s ++ "\t" ++ toString n) = (s, toString n) := by
    intro s there relative n
    refine readFields_plain (plain _ there s relative) fun d hd => ?_
    rintro rfl
    exact absurd (digit_of_toString hd) (by decide)
  have listed : ∀ {s : String} {o : Object}, b[c.key s]? = some o → c.key s ∈ b := by
    intro s o there
    rw [Std.ExtTreeMap.mem_iff_isSome_getElem?, there]
    rfl
  have lines : ∀ line ∈ present c b, Text.startsWith (readFields line).1 "-" = false ∧
      p.adds (readFields line).2 = true := by
    intro line hl
    obtain ⟨s, o, there, relative, rfl⟩ := (mem_present_plain plain).mp hl
    rw [fields (listed there) relative]
    exact ⟨(plain _ (listed there) s relative).2.2.2, adds _⟩
  have named : r ∈ (present c b).map (fun line => (readFields line).1) ↔
      c.relative (c.key r) = some r ∧ c.key r ∈ b := by
    constructor
    · intro hm
      obtain ⟨line, hl, same⟩ := List.mem_map.mp hm
      obtain ⟨s, o, there, relative, rfl⟩ := (mem_present_plain plain).mp hl
      rw [fields (listed there) relative] at same
      obtain rfl : s = r := same
      exact ⟨relative, listed there⟩
    · rintro ⟨relative, there⟩
      have present := there
      rw [Std.ExtTreeMap.mem_iff_isSome_getElem?] at present
      obtain ⟨o, present⟩ := Option.isSome_iff_exists.mp present
      refine List.mem_map.mpr ⟨_, (mem_present_plain plain).mpr ⟨r, o, present, relative, rfl⟩, ?_⟩
      rw [fields there relative]
  rw [prune, staleOf_plain lines, Option.getD_some, List.mem_map]
  constructor
  · rintro ⟨s, hs, same⟩
    obtain rfl := key_inj.mp same
    obtain ⟨hs, unlisted⟩ := List.mem_filter.mp hs
    obtain ⟨relative, there⟩ := named.mp hs
    exact ⟨relative, there, by simpa using unlisted⟩
  · rintro ⟨relative, there, unlisted⟩
    exact ⟨r, List.mem_filter.mpr ⟨named.mpr ⟨relative, there⟩, by simpa using unlisted⟩, rfl⟩

end

/-- No object that the manifest live in the channel references is deleted, however far
the deletions get. -/
def Spares (p : Programs) (c : Channel) (manifest : String) (b : Bucket) : Prop :=
  ∀ k r, b.References c r → c.key r ∈ b → c.key r ∈ b.deleted (prune p c manifest b) k

/-- The local manifest lists every object the live one references, under a name that
does not read as options. -/
def Covered (c : Channel) (manifest : String) (b : Bucket) : Prop :=
  ∀ r, b.References c r → '/' ∉ r.toList → c.key r ∈ b →
    r ∈ keep manifest ∧ Text.startsWith r "-" = false

/-- A prune keeps to its channel and spares the manifest and its signature. It spares
what the live manifest references if the local one covers that, and only then where the
names are plain. -/
theorem prune_spares_iff {p : Programs} (adds : ∀ n : Nat, p.adds (toString n) = true)
    (c : Channel) (manifest : String) (b : Bucket) :
    (∀ k key, key ∈ b → key ∉ b.deleted (prune p c manifest b) k →
      ∃ r, key = c.key r ∧ '/' ∉ r.toList ∧ r ≠ manifestName ∧ r ≠ signatureName) ∧
    (Covered c manifest b → Spares p c manifest b) ∧
    (Plain c b → (Spares p c manifest b ↔ Covered c manifest b)) := by
  have enough : Covered c manifest b → Spares p c manifest b := by
    intro covered k r referenced there
    refine mem_deleted.mpr ⟨there, fun gone => ?_⟩
    obtain ⟨s, same, slash, unlisted⟩ := mem_prune (List.mem_of_mem_take gone)
    obtain rfl := key_inj.mp same
    obtain ⟨listed, dash⟩ := covered r referenced slash there
    rw [unlisted listed] at dash
    cases dash
  refine ⟨?_, enough, fun plain => ⟨?_, enough⟩⟩
  · intro k key there gone
    have gone : key ∈ prune p c manifest b := by
      by_contra kept
      exact gone (mem_deleted.mpr ⟨there, fun h => kept (List.mem_of_mem_take h)⟩)
    obtain ⟨r, rfl, slash, unlisted⟩ := mem_prune gone
    refine ⟨r, rfl, slash, ?_, ?_⟩
    · rintro rfl
      exact absurd (unlisted (by simp [keep])) (by decide)
    · rintro rfl
      exact absurd (unlisted (by simp [keep])) (by decide)
  · intro spares r referenced slash there
    have relative : c.relative (c.key r) = some r := relative_eq_some.mpr ⟨rfl, slash, referenced.1⟩
    refine ⟨?_, (plain _ there r relative).2.2.2⟩
    by_contra unlisted
    have gone := (mem_prune_plain adds plain).mpr ⟨relative, there, unlisted⟩
    have still := spares (prune p c manifest b).length r referenced there
    rw [mem_deleted, List.take_length] at still
    exact still.2 gone

/-- A grep that finds nothing by options, and a shell that adds numbers. -/
def ordinary : Programs where
  grepOption _ _ _ := (false, 0)
  adds size := size.toList.all Char.isDigit

theorem ordinary_adds (n : Nat) : ordinary.adds (toString n) = true :=
  List.all_eq_true.mpr fun _ hd => digit_of_toString hd

/-- A line of a manifest. -/
def lineFor (name : String) : String := String.ofList (List.replicate 64 '0') ++ "  " ++ name

/-- A channel that serves one payload. -/
def serving (name : String) : Bucket :=
  ((∅ : Bucket).insert "carbideos/SHA256SUMS" ⟨lineFor name, none⟩).insert ("carbideos/" ++ name)
    ⟨"x", none⟩

theorem prune_spares_current :
    (∀ k key, key ∈ serving "b" → key ∉ (serving "b").deleted
        (prune ordinary .development (lineFor "b") (serving "b")) k →
      ∃ r, key = Channel.development.key r ∧ '/' ∉ r.toList ∧ r ≠ manifestName ∧
        r ≠ signatureName) ∧
    (Covered .development (lineFor "b") (serving "b") →
      Spares ordinary .development (lineFor "b") (serving "b")) ∧
    (Plain .development (serving "b") → (Spares ordinary .development (lineFor "b") (serving "b") ↔
      Covered .development (lineFor "b") (serving "b"))) :=
  prune_spares_iff ordinary_adds .development (lineFor "b") (serving "b")

/-- A prune by the manifest of an older feed deletes what nodes are offered. -/
theorem older_prune_breaks : ¬ Spares ordinary .development (lineFor "a") (serving "b") := by
  intro spares
  have deletes : "carbideos/b" ∉
      (serving "b").deleted (prune ordinary .development (lineFor "a") (serving "b")) 1 := by
    decide +kernel
  refine deletes (spares 1 "b" ⟨by decide, lineFor "b", ?_, ?_⟩ ?_)
  · decide +kernel
  · decide +kernel
  · decide +kernel

end CarbideOS.Feed
