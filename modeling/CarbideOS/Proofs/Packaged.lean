import CarbideOS.Feed.Package
import CarbideOS.Proofs.Revisions
import CarbideOS.Proofs.Slots

namespace CarbideOS.Feed
open CarbideOS.Agent

/-- The images of one extension and base: the unrevised one and the newest revision. -/
structure Shelf (α : Type) where
  first : Option α := none
  revised : Option (Nat × α) := none

namespace Shelf
variable {α : Type} [DecidableEq α]

/-- What a publication does: an image that is neither the first nor the newest is put
out under the next number. -/
def publish (s : Shelf α) (image : α) : Shelf α :=
  match s.first with
  | none => { s with first := some image }
  | some first =>
    if first = image then s
    else
      match s.revised with
      | none => { s with revised := some (1, image) }
      | some (n, newest) => if newest = image then s else { s with revised := some (n + 1, image) }

def after (images : List α) : Shelf α := images.foldl publish {}

/-- The image of a revision, the unrevised one counting as 0. -/
def image (s : Shelf α) (n : Nat) : Option α :=
  if n = 0 then s.first else (s.revised.filter fun r => r.1 = n).map Prod.snd

/-- The number of the image that nodes take. -/
def top (s : Shelf α) : Nat := (s.revised.map Prod.fst).getD 0

theorem after_concat (images : List α) (image : α) :
    after (images ++ [image]) = (after images).publish image := by
  simp [after]

/-- A shelf knows the first image and whether another was published since. -/
structure Holds (s : Shelf α) (images : List α) : Prop where
  first : s.first = images.head?
  revised : s.revised = none ↔ ∀ i ∈ images, images.head? = some i
  numbered : ∀ n i, s.revised = some (n, i) → 0 < n ∧ n ≤ images.length ∧ i ∈ images
  other : ∀ n i, s.revised = some (n, i) → s.first ≠ some i

theorem Holds.publish {s : Shelf α} {images : List α} (h : s.Holds images) (image : α) :
    (s.publish image).Holds (images ++ [image]) := by
  obtain ⟨first, revised, numbered, different⟩ := h
  unfold Shelf.publish
  cases images with
  | nil =>
    have nothing : s.revised = none := revised.mpr (by simp)
    have first : s.first = none := first
    rw [first]
    exact ⟨rfl, by simp [nothing], by simp [nothing], by simp [nothing]⟩
  | cons i images =>
    have first : s.first = some i := first
    rw [first]
    dsimp only
    have kept : ∀ n j, s.revised = some (n, j) →
        0 < n ∧ n ≤ (i :: images ++ [image]).length ∧ j ∈ i :: images ++ [image] := by
      intro n j hr
      obtain ⟨positive, few, member⟩ := numbered n j hr
      exact ⟨positive, by rw [List.length_append]; omega, List.mem_append_left _ member⟩
    by_cases same : i = image
    · subst same
      rw [if_pos rfl]
      refine ⟨first, ?_, kept, different⟩
      rw [revised]
      refine ⟨fun all j hj => ?_, fun all j hj => all j (List.mem_append_left _ hj)⟩
      rcases List.mem_append.mp hj with hj | hj
      · exact all j hj
      · rw [List.mem_singleton.mp hj]
        rfl
    · rw [if_neg same]
      have other : ¬ ∀ j ∈ i :: images ++ [image], (i :: images ++ [image]).head? = some j := by
        intro all
        exact same (Option.some.inj (all image (by simp)))
      cases hr : s.revised with
      | none =>
        refine ⟨rfl, by simpa using other, ?_, ?_⟩
        · rintro n j ⟨rfl, rfl⟩
          exact ⟨by omega, by simp, by simp⟩
        · rintro n j ⟨rfl, rfl⟩ again
          exact same (Option.some.inj again)
      | some r =>
        obtain ⟨n, j⟩ := r
        dsimp only
        split
        · exact ⟨first, by rw [hr]; simpa using other, kept, different⟩
        · obtain ⟨-, few, -⟩ := numbered n j hr
          refine ⟨rfl, by simpa using other, ?_, ?_⟩
          · rintro m k ⟨rfl, rfl⟩
            exact ⟨by omega, by rw [List.length_append, List.length_singleton]; omega, by simp⟩
          · rintro m k ⟨rfl, rfl⟩ again
            exact same (Option.some.inj again)

theorem after_holds (images : List α) : (after images).Holds images := by
  induction images using List.reverseRecOn with
  | nil => exact ⟨rfl, by simp [after], by simp [after], by simp [after]⟩
  | append_singleton images image ih =>
    rw [after_concat]
    exact ih.publish image

/-- A first image stays, and numbers only go up. -/
structure Grows (s s' : Shelf α) : Prop where
  first : ∀ i, s.first = some i → s'.first = some i
  revised : ∀ n i, s.revised = some (n, i) →
    ∃ n' i', s'.revised = some (n', i') ∧ (n < n' ∨ (n' = n ∧ i' = i))

instance : IsPreorder (Shelf α) Grows where
  refl _ := ⟨fun _ h => h, fun n i h => ⟨n, i, h, Or.inr ⟨rfl, rfl⟩⟩⟩
  trans := by
    intro a b c h h'
    refine ⟨fun i hi => h'.first i (h.first i hi), fun n i hr => ?_⟩
    obtain ⟨m, j, hm, up⟩ := h.revised n i hr
    obtain ⟨l, k, hl, up'⟩ := h'.revised m j hm
    refine ⟨l, k, hl, ?_⟩
    rcases up with up | ⟨rfl, rfl⟩
    · rcases up' with up' | ⟨rfl, -⟩
      · exact Or.inl (up.trans up')
      · exact Or.inl up
    · exact up'

theorem publish_grows (s : Shelf α) (image : α) : Grows s (s.publish image) := by
  have still : ∀ n i, s.revised = some (n, i) →
      ∃ n' i', s.revised = some (n', i') ∧ (n < n' ∨ (n' = n ∧ i' = i)) :=
    fun n i h => ⟨n, i, h, Or.inr ⟨rfl, rfl⟩⟩
  unfold Shelf.publish
  cases first : s.first with
  | none => exact ⟨fun i h => absurd (first.symm.trans h) (by simp), still⟩
  | some f =>
    dsimp only
    split
    · exact ⟨fun i h => h, still⟩
    · cases revised : s.revised with
      | none => exact ⟨fun i h => first.symm.trans h,
        fun n i h => absurd (revised.symm.trans h) (by simp)⟩
      | some r =>
        dsimp only
        split
        · exact ⟨fun i h => h, still⟩
        · refine ⟨fun i h => first.symm.trans h, fun n i h => ⟨r.1 + 1, image, rfl, Or.inl ?_⟩⟩
          have same : r = (n, i) := Option.some.inj (revised.symm.trans h)
          rw [same]
          omega

theorem after_grows (images more : List α) : Grows (after images) (after (images ++ more)) := by
  induction more using List.reverseRecOn with
  | nil =>
    rw [List.append_nil]
    exact refl _
  | append_singleton more image ih =>
    rw [← List.append_assoc, after_concat]
    exact IsTrans.trans _ _ _ ih (publish_grows _ image)

/-- A number names one image for good. -/
theorem Grows.image {s s' : Shelf α} (h : Grows s s') {n : Nat} {a b : α}
    (ha : s.image n = some a) (hb : s'.image n = some b) : a = b := by
  unfold Shelf.image at ha hb
  split at ha
  · rename_i zero
    rw [if_pos zero, h.first a ha] at hb
    exact Option.some.inj hb
  · rename_i positive
    rw [if_neg positive] at hb
    obtain ⟨⟨m, i⟩, hr, rfl⟩ := Option.map_eq_some_iff.mp ha
    obtain ⟨⟨m', i'⟩, hr', rfl⟩ := Option.map_eq_some_iff.mp hb
    obtain ⟨hr, same⟩ := Option.filter_eq_some_iff.mp hr
    obtain ⟨hr', same'⟩ := Option.filter_eq_some_iff.mp hr'
    obtain ⟨l, k, hl, up⟩ := h.revised m i hr
    obtain ⟨rfl, rfl⟩ := Prod.mk.inj (Option.some.inj (hl.symm.trans hr'))
    simp only [decide_eq_true_eq] at same same'
    rcases up with up | ⟨-, rfl⟩
    · omega
    · rfl

/-- Nodes take the revision if there is one. -/
def newest (s : Shelf α) : Option α := s.image s.top

omit [DecidableEq α] in
theorem image_eq_some {s : Shelf α} {n : Nat} (positive : 0 < n) {i : α} :
    s.image n = some i ↔ s.revised = some (n, i) := by
  rw [image, if_neg (by omega), Option.map_eq_some_iff]
  constructor
  · rintro ⟨⟨m, j⟩, hr, rfl⟩
    obtain ⟨kept, same⟩ := Option.filter_eq_some_iff.mp hr
    obtain rfl : m = n := by simpa using same
    exact kept
  · intro hr
    exact ⟨(n, i), Option.filter_eq_some_iff.mpr ⟨hr, by simp⟩, rfl⟩

omit [DecidableEq α] in
theorem newest_eq {s : Shelf α} {images : List α} (h : s.Holds images) :
    s.newest = (s.revised.map Prod.snd).or s.first := by
  unfold newest top image
  cases hr : s.revised with
  | none => rfl
  | some r =>
    have positive := (h.numbered r.1 r.2 hr).1
    simp [Nat.pos_iff_ne_zero.mp positive]

/-- The image just published is the one nodes take, unless it is the first one again
after another was published. -/
theorem newest_publish_iff {s : Shelf α} {images : List α} (h : s.Holds images) (image : α) :
    (s.publish image).newest = some image ↔
      images.head? ≠ some image ∨ ∀ i ∈ images, i = image := by
  rw [newest_eq (h.publish image)]
  unfold Shelf.publish
  cases images with
  | nil =>
    have nothing : s.revised = none := h.revised.mpr (by simp)
    have first : s.first = none := h.first
    simp [first, nothing]
  | cons i images =>
    have first : s.first = some i := h.first
    rw [first]
    dsimp only
    by_cases same : i = image
    · subst same
      rw [if_pos rfl, first]
      have only := h.revised
      cases hr : s.revised with
      | none =>
        have all := only.mp hr
        simp only [Option.map_none, Option.none_or, true_iff]
        exact Or.inr fun j hj => (Option.some.inj (all j hj)).symm
      | some r =>
        have different : r.2 ≠ i := fun same => h.other r.1 r.2 hr (by rw [first, same])
        have more : ¬ ∀ j ∈ i :: images, j = i := by
          intro all
          rw [only.mpr fun j hj => by rw [all j hj]; rfl] at hr
          cases hr
        simp only [Option.map_some, Option.some_or, Option.some.injEq, List.head?_cons, ne_eq,
          not_true_eq_false, false_or]
        exact iff_of_false different more
    · rw [if_neg same]
      have fresh : (i :: images).head? ≠ some image := fun again => same (Option.some.inj again)
      simp only [fresh, ne_eq, not_false_eq_true, true_or, iff_true]
      cases hr : s.revised with
      | none => rfl
      | some r =>
        dsimp only
        split
        · rename_i again
          rw [hr, ← again]
          rfl
        · rfl

end Shelf

theorem imageFile_inj {name u v : String} : imageFile name u = imageFile name v ↔ u = v := by
  constructor
  · intro h
    exact Text.append_left_cancel (Text.append_right_cancel h)
  · rintro rfl
    rfl

theorem glob_iff {start piece file : String} (h : start ≠ "") :
    Shell.glob start [piece] file = true ↔ ∃ mid, file = start ++ mid ++ piece := by
  have visible : start.isEmpty = false := by
    rw [Bool.eq_false_iff, ne_eq, String.isEmpty_iff]
    exact h
  simp only [Shell.glob, Shell.starred, visible, Bool.not_false, Bool.true_or, Bool.and_true,
    Bool.and_eq_true, List.isPrefixOf_iff_prefix, List.isSuffixOf_iff_suffix]
  constructor
  · rintro ⟨⟨l, hl⟩, tail⟩
    rw [← hl, List.drop_left] at tail
    obtain ⟨mid, hm⟩ := tail
    refine ⟨String.ofList mid, String.toList_inj.mp ?_⟩
    rw [← hl, ← hm]
    simp
  · rintro ⟨mid, rfl⟩
    have chars : (start ++ mid ++ piece).toList = start.toList ++ (mid.toList ++ piece.toList) := by
      simp
    rw [chars, List.drop_left]
    exact ⟨List.prefix_append _ _, List.suffix_append _ _⟩

/-- What follows the dash counts as a revision when it is a canonical number. -/
theorem revisionOf_eq_some {text name version revision : String} :
    revisionOf (name ++ "_" ++ version ++ "-" ++ text ++ ".sysext.raw.zst") name version =
        some revision ↔ revision = text ∧ ∃ n, 0 < n ∧ text = toString n := by
  have stripped : Shell.withoutSuffix (Shell.withoutPrefix
      (name ++ "_" ++ version ++ "-" ++ text ++ ".sysext.raw.zst") (name ++ "_" ++ version ++ "-"))
        ".sysext.raw.zst" = text := by
    have front : Text.stripPrefix (name ++ "_" ++ version ++ "-" ++ text ++ ".sysext.raw.zst")
        (name ++ "_" ++ version ++ "-") = some (text ++ ".sysext.raw.zst") :=
      Text.stripPrefix_eq_some.mpr (by simp [String.append_assoc])
    have back : Text.stripSuffix (text ++ ".sysext.raw.zst") ".sysext.raw.zst" = some text :=
      Text.stripSuffix_eq_some.mpr rfl
    simp [Shell.withoutPrefix, Shell.withoutSuffix, front, back]
  rw [← Decimal.canonical_iff_toString]
  simp only [revisionOf, stripped]
  by_cases canonical : Decimal.Canonical text.toList
  · rw [(Text.canonical_checks text).mpr canonical, if_neg (by simp)]
    simp [canonical, eq_comm]
  · have refused := mt (Text.canonical_checks text).mp canonical
    rw [Bool.not_eq_false] at refused
    rw [if_pos refused]
    simp [canonical]

/-- The shell finds exactly the files of canonical revisions. -/
theorem mem_revisions {feed : Dir} {name version revision file : String} :
    (revision, file) ∈ revisions feed name version ↔
      file ∈ feed ∧ ∃ n, 0 < n ∧ revision = toString n ∧
        file = imageFile name (version ++ "-" ++ toString n) := by
  have shape : ∀ text, imageFile name (version ++ "-" ++ text) =
      name ++ "_" ++ version ++ "-" ++ text ++ ".sysext.raw.zst" := by
    intro text
    simp [imageFile, String.append_assoc]
  have named : name ++ "_" ++ version ++ "-" ≠ "" := by
    intro h
    have := congrArg (fun s => s.toList.length) h
    simp at this
  simp only [revisions, List.mem_filterMap, List.mem_filter, glob_iff named, Option.map_eq_some_iff,
    Prod.mk.injEq, Std.ExtTreeMap.mem_keys]
  constructor
  · rintro ⟨_, ⟨there, text, rfl⟩, _, revised, rfl, rfl⟩
    obtain ⟨rfl, n, positive, rfl⟩ := revisionOf_eq_some.mp revised
    exact ⟨there, n, positive, rfl, (shape _).symm⟩
  · rintro ⟨there, n, positive, rfl, rfl⟩
    refine ⟨_, ⟨there, toString n, shape _⟩, toString n, ?_, rfl, rfl⟩
    rw [shape]
    exact revisionOf_eq_some.mpr ⟨rfl, n, positive, rfl⟩

/-- The names of a feed offer the versions it has an image for. -/
theorem mem_offered {feed : Dir} {name version : String} :
    version ∈ offered feed name ↔ imageFile name version ∈ feed := by
  simp only [offered, List.mem_filterMap, Std.ExtTreeMap.mem_keys, Option.bind_eq_some_iff,
    Text.stripPrefix_eq_some, Text.stripSuffix_eq_some]
  constructor
  · rintro ⟨_, there, _, rfl, rfl⟩
    rwa [imageFile, String.append_assoc]
  · intro there
    exact ⟨_, there, version ++ ".sysext.raw.zst", by rw [imageFile, String.append_assoc], rfl⟩

/-- A feed holds the images of a shelf under the names of their revisions, and no
other revisions. -/
def Shelved (t : Tools) (name base : String) (feed : Dir) (s : Shelf Bytes) : Prop :=
  ∀ v n, Revises base v n → feed[imageFile name v]? = (s.image n).map t.compress

theorem newestOf_same {found : List String} {n : Nat} (same : ∀ r ∈ found, r = toString n)
    (small : n < 2 ^ 63) (k : Nat) :
    newestOf found k = if found = [] then k else max k n := by
  have parsed : Text.parseUnsigned 63 (toString n) = some n := by
    have digits : (toString n).toList = Nat.toDigits 10 n := by simp
    have all : (toString n).toList.all Char.isDigit = true := by
      rw [digits, List.all_eq_true]
      exact fun d hd => Nat.isDigit_of_mem_toDigits (by decide) (by decide) hd
    rw [Text.parseUnsigned_of_digits (by rw [digits]; exact Nat.toDigits_ne_nil) all, digits,
      Decimal.value_toDigits, if_pos small]
  induction found generalizing k with
  | nil => rfl
  | cons r found ih =>
    obtain rfl := same r (by simp)
    have step : newestOf (toString n :: found) k = newestOf found (if k < n then n else k) := by
      simp only [newestOf, List.foldl_cons, parsed]
    rw [step, ih fun r hr => same r (by simp [hr])]
    have most : (if k < n then n else k) = max k n := by
      split <;> omega
    rw [most]
    by_cases empty : found = []
    · simp [empty]
    · simp [empty]

/-- The file of a revision is taken away unless it is the newest. -/
theorem retire_get {feed : Dir} {name base v : String} {n : Nat} (m : Nat) (h : Revises base v n) :
    (retire name base (toString m) feed)[imageFile name v]? =
      if n = 0 ∨ n = m then feed[imageFile name v]? else none := by
  have listed : imageFile name v ∈ ((revisions feed name base).filter
      fun r => r.1 != toString m).map Prod.snd ↔ imageFile name v ∈ feed ∧ n ≠ 0 ∧ n ≠ m := by
    constructor
    · intro hm
      obtain ⟨⟨r, file⟩, hr, rfl⟩ := List.mem_map.mp hm
      obtain ⟨hr, other⟩ := List.mem_filter.mp hr
      obtain ⟨there, k, positive, rfl, same⟩ := mem_revisions.mp hr
      have number : n = k := h.number (Or.inr ⟨positive, imageFile_inj.mp same⟩)
      subst number
      refine ⟨there, by omega, ?_⟩
      rintro rfl
      simp at other
    · rintro ⟨there, positive, other⟩
      rcases h with ⟨zero, -⟩ | ⟨positive, rfl⟩
      · exact absurd zero positive
      · refine List.mem_map.mpr ⟨(toString n, imageFile name (base ++ "-" ++ toString n)),
          List.mem_filter.mpr ⟨mem_revisions.mpr ⟨there, n, positive, rfl, rfl⟩, ?_⟩, rfl⟩
        simpa [Decimal.toString_inj] using other
  rw [retire, Dir.get_eraseAll]
  by_cases kept : n = 0 ∨ n = m
  · rw [if_pos kept, if_neg]
    rw [listed]
    rintro ⟨-, positive, other⟩
    omega
  · rw [if_neg kept]
    by_cases there : imageFile name v ∈ feed
    · rw [if_pos (listed.mpr ⟨there, by omega, by omega⟩)]
    · rw [Std.ExtTreeMap.getElem?_eq_none there, ite_self]

section
variable {t : Tools} {name base : String} {feed : Dir} {s : Shelf Bytes}

theorem Shelved.file {n : Nat} (h : Shelved t name base feed s) (positive : 0 < n) :
    feed[imageFile name (base ++ "-" ++ toString n)]? = (s.image n).map t.compress :=
  h _ n (Or.inr ⟨positive, rfl⟩)

/-- The shell finds the newest revision and no other. -/
theorem Shelved.revisions (h : Shelved t name base feed s) {r : String} :
    r ∈ (revisions feed name base).map Prod.fst ↔
      ∃ n i, 0 < n ∧ s.revised = some (n, i) ∧ r = toString n := by
  constructor
  · intro hm
    obtain ⟨⟨r, file⟩, hr, rfl⟩ := List.mem_map.mp hm
    obtain ⟨there, n, positive, rfl, rfl⟩ := mem_revisions.mp hr
    have content := h.file positive
    cases hi : s.image n with
    | none =>
      rw [Std.ExtTreeMap.mem_iff_isSome_getElem?, content, hi] at there
      cases there
    | some i => exact ⟨n, i, positive, (Shelf.image_eq_some positive).mp hi, rfl⟩
  · rintro ⟨n, i, positive, hr, rfl⟩
    have content := h.file positive
    rw [(Shelf.image_eq_some positive).mpr hr, Option.map_some] at content
    have there : imageFile name (base ++ "-" ++ toString n) ∈ feed := by
      rw [Std.ExtTreeMap.mem_iff_isSome_getElem?, content]
      rfl
    exact List.mem_map.mpr ⟨(_, _), mem_revisions.mpr ⟨there, n, positive, rfl, rfl⟩, rfl⟩

theorem increment_eq {n : Nat} (small : n + 1 < 2 ^ 63) : increment n = toString (n + 1) := by
  have wrap : Int.bmod ((n : Int) + 1) (2 ^ 64) = ((n + 1 : Nat) : Int) := by
    rw [Int.bmod_eq_of_le] <;> push_cast <;> omega
  rw [increment, wrap]
  rfl

variable {images : List Bytes} {image : Bytes}

/-- The newest number the shell works out is that of the shelf. -/
theorem Shelved.newestOf (h : Shelved t name base feed s) (holds : s.Holds images)
    (few : images.length < 2 ^ 63) :
    newestOf ((Feed.revisions feed name base).map Prod.fst) 0 = s.top := by
  have small : s.top < 2 ^ 63 := by
    unfold Shelf.top
    cases hr : s.revised with
    | none => simp
    | some r =>
      have := (holds.numbered r.1 r.2 hr).2.1
      simp only [Option.map_some, Option.getD_some]
      omega
  have same : ∀ r ∈ (Feed.revisions feed name base).map Prod.fst, r = toString s.top := by
    intro r hm
    obtain ⟨n, i, positive, hr, rfl⟩ := h.revisions.mp hm
    simp [Shelf.top, hr]
  rw [newestOf_same same small]
  split
  · rename_i none
    cases hr : s.revised with
    | none => simp [Shelf.top, hr]
    | some r =>
      have := h.revisions.mpr ⟨r.1, r.2, (holds.numbered r.1 r.2 hr).1, hr, rfl⟩
      rw [none] at this
      cases this
  · exact Nat.zero_max _

/-- The revision worked out for a changed image is the one the shelf gives it. -/
theorem Shelved.nextRevision (roundtrip : ∀ x, t.decompress (t.compress x) = x)
    (h : Shelved t name base feed s) (holds : s.Holds images) (few : images.length + 1 < 2 ^ 63)
    (distinct : ∀ a ∈ images, t.sha256sum a = t.sha256sum image → a = image)
    (published : s.first = some first) (changed : first ≠ image) :
    ∃ m, (Feed.nextRevision t name base image feed).1 = toString m ∧
      (s.publish image).revised = some (m, image) ∧
      ∀ v n, Revises base v n → n = 0 ∨ n = m →
        (Feed.nextRevision t name base image feed).2[imageFile name v]? =
          ((s.publish image).image n).map t.compress := by
  have newest := h.newestOf holds (by omega)
  have top : s.top + 1 < 2 ^ 63 := by
    unfold Shelf.top
    cases hr : s.revised with
    | none => simp
    | some r =>
      have := (holds.numbered r.1 r.2 hr).2.1
      simp only [Option.map_some, Option.getD_some]
      omega
  -- the newest revision holds the image exactly if the shelf says so
  have again : (0 < s.top ∧
      feed[imageFile name (base ++ "-" ++ toString s.top)]?.map (feedDigest t) =
      some (t.sha256sum image)) ↔ s.revised = some (s.top, image) := by
    constructor
    · rintro ⟨positive, same⟩
      rw [h.file positive, Option.map_map, Option.map_eq_some_iff] at same
      obtain ⟨i, hi, digest⟩ := same
      have hr := (Shelf.image_eq_some positive).mp hi
      have : i = image := by
        apply distinct i (holds.numbered _ _ hr).2.2
        simpa [feedDigest, roundtrip] using digest
      rw [← this]
      exact hr
    · intro hr
      have positive := (holds.numbered _ _ hr).1
      refine ⟨positive, ?_⟩
      rw [h.file positive, (Shelf.image_eq_some positive).mpr hr]
      simp [feedDigest, roundtrip]
  unfold Feed.nextRevision
  simp only [newest]
  by_cases held : s.revised = some (s.top, image)
  · rw [if_pos (again.mpr held)]
    have same : s.publish image = s := by
      simp [Shelf.publish, published, changed, held]
    rw [same]
    exact ⟨s.top, rfl, held, fun v n revises _ => h v n revises⟩
  · rw [if_neg (mt again.mp held), increment_eq top]
    have next : s.publish image = { s with revised := some (s.top + 1, image) } := by
      unfold Shelf.publish
      rw [published]
      dsimp only
      rw [if_neg changed]
      cases hr : s.revised with
      | none => simp [Shelf.top, hr]
      | some r =>
        have top : s.top = r.1 := by simp [Shelf.top, hr]
        have other : r.2 ≠ image := by
          intro same
          apply held
          rw [hr, top, ← same]
        simp [other, top]
    rw [next]
    refine ⟨s.top + 1, rfl, rfl, fun v n revises which => ?_⟩
    rw [Dir.get_insert]
    have own : Revises base (base ++ "-" ++ toString (s.top + 1)) (s.top + 1) :=
      Or.inr ⟨by omega, rfl⟩
    by_cases new : n = s.top + 1
    · subst new
      rw [if_pos (imageFile_inj.mpr (own.unique revises)), (Shelf.image_eq_some (by omega)).mpr rfl]
      rfl
    · have zero : n = 0 := by omega
      subst zero
      have apart : imageFile name (base ++ "-" ++ toString (s.top + 1)) ≠ imageFile name v := by
        intro same
        rw [← imageFile_inj.mp same] at revises
        exact new (revises.number own)
      rw [if_neg apart, h v 0 revises]
      rfl

/-- A publication changes the feed as it changes the shelf. -/
theorem Shelved.publish (roundtrip : ∀ x, t.decompress (t.compress x) = x)
    (h : Shelved t name base feed s) (holds : s.Holds images) (few : images.length + 1 < 2 ^ 63)
    (distinct : ∀ a ∈ images, t.sha256sum a = t.sha256sum image → a = image) :
    Shelved t name base (publishExtension t name base image feed) (s.publish image) := by
  have kept : Shelved t name base (feed.erase (name ++ "_" ++ base ++ ".sysext.raw")) s := by
    intro v n revises
    rw [Dir.get_erase, if_neg, h v n revises]
    intro same
    have ends := Text.endsWith_append (name ++ "_" ++ v) ".sysext.raw.zst"
    have ends' := Text.endsWith_append (name ++ "_" ++ base) ".sysext.raw"
    rw [same] at ends'
    have := Text.endsWith_unique ends ends'
    revert this
    decide
  unfold publishExtension
  have here := kept base 0 (Or.inl ⟨rfl, rfl⟩)
  cases published : s.first with
  | none =>
    have missing : (feed.erase (name ++ "_" ++ base ++ ".sysext.raw"))[imageFile name base]? =
        none := by
      rw [here]
      simp [Shelf.image, published]
    simp only [missing]
    have next : s.publish image = { s with first := some image } := by
      simp [Shelf.publish, published]
    rw [next]
    intro v n revises
    rw [Dir.get_insert]
    by_cases zero : n = 0
    · subst zero
      have same : base = v := Revises.unique (Or.inl ⟨rfl, rfl⟩) revises
      rw [if_pos (imageFile_inj.mpr same)]
      rfl
    · rw [if_neg fun same => zero (revises.number (Or.inl ⟨rfl, (imageFile_inj.mp same).symm⟩)),
        kept v n revises]
      simp [Shelf.image, zero]
  | some first =>
    have there : (feed.erase (name ++ "_" ++ base ++ ".sysext.raw"))[imageFile name base]? =
        some (t.compress first) := by
      rw [here]
      simp [Shelf.image, published]
    simp only [there, feedDigest, roundtrip]
    have member : first ∈ images := by
      have head := holds.first
      rw [published] at head
      exact List.mem_of_head? head.symm
    by_cases same : first = image
    · rw [if_pos (by rw [same])]
      have next : s.publish image = s := by simp [Shelf.publish, published, same]
      rw [next]
      exact kept
    · rw [if_neg fun digest => same (distinct first member digest)]
      obtain ⟨m, number, revised, files⟩ :=
        kept.nextRevision roundtrip holds few distinct published same
      simp only [number]
      intro v n revises
      rw [retire_get m revises]
      by_cases which : n = 0 ∨ n = m
      · rw [if_pos which]
        exact files v n revises which
      · rw [if_neg which, Shelf.image, if_neg (by omega), revised]
        have other : m ≠ n := by omega
        simp [Option.filter, other]

/-- The files a publication for a base may write or take away. -/
inductive Touched (name base : String) : String → Prop where
  | plain : Touched name base (name ++ "_" ++ base ++ ".sysext.raw")
  | first : Touched name base (imageFile name base)
  | revision (text : String) : Touched name base (imageFile name (base ++ "-" ++ text))

theorem retire_untouched {newest f : String} (h : ¬ Touched name base f) :
    (retire name base newest feed)[f]? = feed[f]? := by
  rw [retire, Dir.get_eraseAll, if_neg]
  intro listed
  obtain ⟨⟨r, file⟩, hr, rfl⟩ := List.mem_map.mp listed
  obtain ⟨-, n, -, -, same⟩ := mem_revisions.mp (List.mem_filter.mp hr).1
  apply h
  rw [same]
  exact .revision _

theorem publishExtension_untouched {f : String} (image : Bytes) (h : ¬ Touched name base f) :
    (publishExtension t name base image feed)[f]? = feed[f]? := by
  have plain : name ++ "_" ++ base ++ ".sysext.raw" ≠ f := by
    rintro rfl
    exact h .plain
  have first : imageFile name base ≠ f := by
    rintro rfl
    exact h .first
  have revision : ∀ text, imageFile name (base ++ "-" ++ text) ≠ f := by
    rintro text rfl
    exact h (.revision text)
  unfold publishExtension
  dsimp only
  split
  · rw [Dir.get_insert, if_neg first, Dir.get_erase, if_neg plain]
  · split
    · rw [Dir.get_erase, if_neg plain]
    · rw [retire_untouched h]
      unfold Feed.nextRevision
      dsimp only
      split
      · rw [Dir.get_erase, if_neg plain]
      · rw [Dir.get_insert, if_neg (revision _), Dir.get_erase, if_neg plain]

/-- A publication for another base leaves the files of this one alone. -/
theorem untouched_of_ne {other v : String} {n : Nat} (revises : Revises base v n)
    (plain : '-' ∉ base.toList) (plain' : '-' ∉ other.toList) (apart : other ≠ base) :
    ¬ Touched name other (imageFile name v) := by
  have dash : ∀ a b : String, '-' ∈ (a ++ "-" ++ b).toList := by
    intro a b
    simp
  intro touched
  generalize hf : imageFile name v = f at touched
  cases touched with
  | plain =>
    have ends := Text.endsWith_append (name ++ "_" ++ v) ".sysext.raw.zst"
    have ends' := Text.endsWith_append (name ++ "_" ++ other) ".sysext.raw"
    have same : name ++ "_" ++ v ++ ".sysext.raw.zst" = name ++ "_" ++ other ++ ".sysext.raw" := hf
    rw [← same] at ends'
    have := Text.endsWith_unique ends ends'
    revert this
    decide
  | first =>
    obtain rfl := imageFile_inj.mp hf
    rcases revises with ⟨-, same⟩ | ⟨-, rfl⟩
    · exact apart same
    · exact plain' (dash _ _)
  | revision text =>
    obtain rfl := imageFile_inj.mp hf
    rcases revises with ⟨-, same⟩ | ⟨-, same⟩
    · exact plain (same ▸ dash _ _)
    · have split : Text.splitOnce (other ++ "-" ++ text) '-' = some (other, text) :=
        Text.splitOnce_append plain'
      have split' : Text.splitOnce (base ++ "-" ++ toString n) '-' = some (base, toString n) :=
        Text.splitOnce_append plain
      rw [same, split'] at split
      exact apart (Prod.mk.inj (Option.some.inj split)).1.symm

/-- The images published for a base, in order. -/
def imagesFor (base : String) (runs : List Publication) : List Bytes :=
  (runs.filter fun r => r.version == base).map Publication.image

/-- Nothing was published for the base yet. -/
def Unpublished (name base : String) (feed : Dir) : Prop :=
  ∀ v n, Revises base v n → feed[imageFile name v]? = none

/-- No two of the published images have the same digest. -/
def Distinct (t : Tools) (runs : List Publication) : Prop :=
  ∀ a ∈ runs, ∀ b ∈ runs, t.sha256sum a.image = t.sha256sum b.image → a.image = b.image

theorem mem_imagesFor {runs : List Publication} {i : Bytes} (h : i ∈ imagesFor base runs) :
    ∃ r ∈ runs, r.image = i := by
  obtain ⟨r, hr, rfl⟩ := List.mem_map.mp h
  exact ⟨r, (List.mem_filter.mp hr).1, rfl⟩

/-- Whatever is published for whichever bases, the feed holds the shelf of each. -/
theorem publishAll_shelved (roundtrip : ∀ x, t.decompress (t.compress x) = x)
    (fresh : Unpublished name base feed) {runs : List Publication} (plain : '-' ∉ base.toList)
    (dashless : ∀ r ∈ runs, '-' ∉ r.version.toList) (few : runs.length < 2 ^ 63)
    (distinct : Distinct t runs) :
    Shelved t name base (publishAll t name runs feed) (.after (imagesFor base runs)) := by
  induction runs using List.reverseRecOn with
  | nil =>
    intro v n revises
    rw [publishAll, List.foldl_nil, fresh v n revises]
    simp [Shelf.after, imagesFor, Shelf.image]
  | append_singleton runs r ih =>
    have earlier := ih (fun r hr => dashless r (List.mem_append_left _ hr))
      (by rw [List.length_append] at few; omega)
      fun a ha b hb => distinct a (List.mem_append_left _ ha) b (List.mem_append_left _ hb)
    have last : publishAll t name (runs ++ [r]) feed =
        publishExtension t name r.version r.image (publishAll t name runs feed) := by
      simp [publishAll]
    rw [last]
    by_cases own : r.version = base
    · have images : imagesFor base (runs ++ [r]) = imagesFor base runs ++ [r.image] := by
        simp [imagesFor, own]
      rw [images, Shelf.after_concat, own]
      refine earlier.publish roundtrip (Shelf.after_holds _) ?_ ?_
      · have short : (imagesFor base runs).length ≤ runs.length := by
          rw [imagesFor, List.length_map]
          exact List.length_filter_le _ _
        rw [List.length_append, List.length_singleton] at few
        omega
      · intro a ha digest
        obtain ⟨q, hq, rfl⟩ := mem_imagesFor ha
        exact distinct q (List.mem_append_left _ hq) r (by simp) digest
    · have images : imagesFor base (runs ++ [r]) = imagesFor base runs := by
        simp [imagesFor, own]
      rw [images]
      intro v n revises
      have other : ¬ Touched name r.version (imageFile name v) :=
        untouched_of_ne revises plain (dashless r (by simp)) own
      rw [publishExtension_untouched r.image other]
      exact earlier v n revises

/-- The version the agent picks from the names of the feed denotes the image. -/
def Taken (t : Tools) (name base : String) (feed : Dir) (image : Bytes) : Prop :=
  ∃ v content, newestForBase base (offered feed name) = some v ∧
    feed[imageFile name v]? = some content ∧ t.decompress content = image

/-- The agent takes what the shelf holds as its newest image. -/
theorem Shelved.taken_iff (roundtrip : ∀ x, t.decompress (t.compress x) = x)
    (h : Shelved t name base feed s) (holds : s.Holds images) (nonempty : images ≠ [])
    (few : images.length < 2 ^ 63) : Taken t name base feed image ↔ s.newest = some image := by
  obtain ⟨top, revises⟩ : ∃ v, Revises base v s.top := by
    by_cases zero : s.top = 0
    · exact ⟨base, Or.inl ⟨zero, rfl⟩⟩
    · exact ⟨_, Or.inr ⟨by omega, rfl⟩⟩
  obtain ⟨newest, held⟩ : ∃ i, s.newest = some i := by
    have first : s.first = some (images.head nonempty) := by
      rw [holds.first, List.head?_eq_some_head]
    rw [Shelf.newest_eq holds, first]
    cases s.revised with
    | none => exact ⟨_, rfl⟩
    | some r => exact ⟨_, rfl⟩
  have content : feed[imageFile name top]? = some (t.compress newest) := by
    have held : s.image s.top = some newest := held
    rw [h top s.top revises, held]
    rfl
  have small : s.top < 2 ^ 64 := by
    unfold Shelf.top
    cases hr : s.revised with
    | none => simp
    | some r =>
      have := (holds.numbered r.1 r.2 hr).2.1
      simp only [Option.map_some, Option.getD_some]
      omega
  have picks : newestForBase base (offered feed name) = some top := by
    refine newestForBase_eq_some_iff.mpr ⟨mem_offered.mpr ?_, s.top, ⟨revises, small⟩, ?_⟩
    · rw [Std.ExtTreeMap.mem_iff_isSome_getElem?, content]
      rfl
    · rintro u hu m ⟨other, -⟩
      have there := mem_offered.mp hu
      rw [Std.ExtTreeMap.mem_iff_isSome_getElem?, h u m other, Option.isSome_map] at there
      by_cases zero : m = 0
      · omega
      · obtain ⟨i, hi⟩ := Option.isSome_iff_exists.mp there
        have hr := (Shelf.image_eq_some (by omega)).mp hi
        simp [Shelf.top, hr]
  rw [held, Option.some.injEq]
  constructor
  · rintro ⟨v, bytes, picked, found, rfl⟩
    obtain rfl : top = v := Option.some.inj (picks.symm.trans picked)
    obtain rfl : t.compress newest = bytes := Option.some.inj (content.symm.trans found)
    exact (roundtrip newest).symm
  · rintro rfl
    exact ⟨top, _, picks, content, roundtrip newest⟩

/-- What is published last is what nodes take, except for the first image again after
another one. The unrevised image stays, and a revision's name is used once. -/
theorem published_taken_iff (roundtrip : ∀ x, t.decompress (t.compress x) = x)
    (fresh : Unpublished name base feed) (plain : '-' ∉ base.toList) {runs : List Publication}
    (dashless : ∀ r ∈ runs, '-' ∉ r.version.toList) (few : runs.length < 2 ^ 63)
    (distinct : Distinct t runs) :
    (∀ before after image, runs = before ++ ⟨base, image⟩ :: after →
      (Taken t name base (publishAll t name (before ++ [⟨base, image⟩]) feed) image ↔
        (imagesFor base before).head? ≠ some image ∨ ∀ i ∈ imagesFor base before, i = image)) ∧
    ∀ before after, runs = before ++ after → ∀ v n, Revises base v n → ∀ content,
      (publishAll t name before feed)[imageFile name v]? = some content →
        (n = 0 → (publishAll t name runs feed)[imageFile name v]? = some content) ∧
        ∀ other, (publishAll t name runs feed)[imageFile name v]? = some other →
          other = content := by
  have part : ∀ before after, runs = before ++ after →
      Shelved t name base (publishAll t name before feed) (.after (imagesFor base before)) := by
    rintro before after rfl
    refine publishAll_shelved roundtrip fresh plain (fun r hr =>
      dashless r (List.mem_append_left _ hr))
      (by rw [List.length_append] at few; omega) fun a ha b hb => ?_
    exact distinct a (List.mem_append_left _ ha) b (List.mem_append_left _ hb)
  constructor
  · intro before after image split
    have images : imagesFor base (before ++ [⟨base, image⟩]) =
        imagesFor base before ++ [image] := by
      simp [imagesFor]
    have shelved := part (before ++ [⟨base, image⟩]) after (by rw [split]; simp)
    have short : (imagesFor base before).length ≤ before.length := by
      rw [imagesFor, List.length_map]
      exact List.length_filter_le _ _
    have holds := Shelf.after_holds (imagesFor base before ++ [image])
    have bounded : (imagesFor base before ++ [image]).length < 2 ^ 63 := by
      rw [split, List.length_append, List.length_cons] at few
      rw [List.length_append, List.length_singleton]
      omega
    rw [images] at shelved
    rw [shelved.taken_iff roundtrip holds (by simp) bounded, Shelf.after_concat]
    exact Shelf.newest_publish_iff (Shelf.after_holds _) image
  · rintro before after rfl v n revises content first
    rw [part before after rfl v n revises] at first
    have whole := part (before ++ after) [] (by simp) v n revises
    obtain ⟨i, hi, rfl⟩ := Option.map_eq_some_iff.mp first
    have grows : Shelf.Grows (.after (imagesFor base before))
        (.after (imagesFor base (before ++ after))) := by
      have images : imagesFor base (before ++ after) = imagesFor base before ++
          imagesFor base after := by
        simp [imagesFor]
      rw [images]
      exact Shelf.after_grows _ _
    constructor
    · rintro rfl
      rw [whole]
      have : (Shelf.after (imagesFor base (before ++ after))).image 0 = some i := grows.first i hi
      rw [this]
      rfl
    · intro other there
      rw [whole] at there
      obtain ⟨j, hj, rfl⟩ := Option.map_eq_some_iff.mp there
      rw [grows.image hi hj]

end

/-- Tools that mark what they compress and tell all images apart. -/
def marked : Tools where
  compress x := 40 :: x
  decompress := List.tail
  sha256sum x := String.ofList (x.map fun b => Char.ofNat b.toNat)

/-- The first image of an extension is published again after another one. -/
def returned : List Publication := [⟨"1", [1]⟩, ⟨"1", [2]⟩, ⟨"1", [1]⟩]

theorem returned_fresh : Unpublished "n" "1" ∅ := by
  intro v n revises
  simp

theorem published_taken_returned :
    Taken marked "n" "1" (publishAll marked "n" [⟨"1", [1]⟩, ⟨"1", [2]⟩] ∅) [2] ↔
      (imagesFor "1" [⟨"1", [1]⟩]).head? ≠ some [2] ∨ ∀ i ∈ imagesFor "1" [⟨"1", [1]⟩], i = [2] :=
  (@published_taken_iff marked "n" "1" ∅ (fun _ => rfl) returned_fresh (by decide) returned
    (by decide) (by decide) (by unfold Distinct; decide +kernel)).1 [⟨"1", [1]⟩] _ [2] rfl

/-- Nodes keep taking the other image. -/
theorem returned_not_taken :
    ¬ Taken marked "n" "1" (publishAll marked "n" returned ∅) [1] ∧
      Taken marked "n" "1" (publishAll marked "n" returned ∅) [2] := by
  have picks : newestForBase "1" (offered (publishAll marked "n" returned ∅) "n") = some "1-1" := by
    decide +kernel
  have content : (publishAll marked "n" returned ∅)[imageFile "n" "1-1"]? = some [40, 2] := by
    decide +kernel
  refine ⟨?_, "1-1", [40, 2], picks, content, rfl⟩
  rintro ⟨v, bytes, picked, found, same⟩
  obtain rfl : "1-1" = v := Option.some.inj (picks.symm.trans picked)
  obtain rfl : [40, 2] = bytes := Option.some.inj (content.symm.trans found)
  cases same

end CarbideOS.Feed
