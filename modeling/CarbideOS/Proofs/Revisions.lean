import CarbideOS.Agent.Staging
import CarbideOS.Lib.Decimal

namespace CarbideOS.Agent

/-- A version is a base itself, as revision 0, or a later revision of it. -/
def Revises (base version : String) (n : Nat) : Prop :=
  (n = 0 ∧ version = base) ∨ (0 < n ∧ version = base ++ "-" ++ toString n)

/-- The revisions the agent reads are the canonical spellings of positive numbers
that a machine word holds. -/
theorem revisionNumber_iff {text : String} {n : Nat} :
    revisionNumber text = some n ↔ (0 < n ∧ text = toString n) ∧ n < 2 ^ 64 := by
  have spelled : text = toString n ↔ text.toList = Nat.toDigits 10 n := by
    rw [← String.toList_inj]
    simp
  rw [spelled, ← Decimal.canonical_iff, revisionNumber]
  by_cases canonical : Decimal.Canonical text.toList
  · rw [(Text.canonical_checks text).mpr canonical, if_neg (by simp),
      Text.parseUnsigned_of_digits canonical.1 (List.all_eq_true.mpr canonical.2.2)]
    by_cases bounded : Decimal.value text.toList < 2 ^ 64
    · simp only [if_pos bounded, Option.some.injEq]
      constructor
      · rintro rfl
        exact ⟨⟨canonical, rfl⟩, bounded⟩
      · exact fun h => h.1.2
    · simp only [if_neg bounded, reduceCtorEq, false_iff, not_and]
      rintro ⟨-, rfl⟩
      exact bounded
  · have refused := mt (Text.canonical_checks text).mp canonical
    rw [Bool.not_eq_false] at refused
    rw [if_pos refused]
    simp [canonical]

theorem Revises.unique {base u v : String} {n : Nat} (hu : Revises base u n)
    (hv : Revises base v n) : u = v := by
  rcases hu with ⟨rfl, rfl⟩ | ⟨positive, rfl⟩
  · rcases hv with ⟨-, rfl⟩ | ⟨positive, -⟩
    · rfl
    · omega
  · rcases hv with ⟨zero, -⟩ | ⟨-, rfl⟩
    · omega
    · rfl

theorem Revises.number {base v : String} {n m : Nat} (hn : Revises base v n)
    (hm : Revises base v m) : n = m := by
  have longer : ∀ rest : String, base ≠ base ++ "-" ++ rest := by
    intro rest h
    have := congrArg (fun s => s.toList.length) h
    simp at this
  rcases hn with ⟨rfl, rfl⟩ | ⟨-, rfl⟩
  · rcases hm with ⟨rfl, -⟩ | ⟨-, same⟩
    · rfl
    · exact absurd same (longer _)
  · rcases hm with ⟨-, same⟩ | ⟨-, same⟩
    · exact absurd same.symm (longer _)
    · exact Decimal.toString_inj.mp (Text.append_left_cancel same)

theorem revisionOf_iff {base version : String} {n : Nat} :
    revisionOf base version = some n ↔ Revises base version n ∧ n < 2 ^ 64 := by
  unfold revisionOf Revises
  by_cases same : version = base
  · subst same
    have longer : ∀ rest : String, version ≠ version ++ "-" ++ rest := by
      intro rest h
      have := congrArg (fun s => s.toList.length) h
      simp at this
    simp only [if_true, Option.some.injEq, longer, and_false, or_false, and_true]
    omega
  · rw [if_neg same]
    simp only [Option.bind_eq_some_iff, Text.stripPrefix_eq_some, same, and_false, false_or,
      revisionNumber_iff]
    constructor
    · rintro ⟨_, rfl, _, rfl, ⟨positive, rfl⟩, bounded⟩
      exact ⟨⟨positive, by rw [String.append_assoc]⟩, bounded⟩
    · rintro ⟨⟨positive, rfl⟩, bounded⟩
      exact ⟨_, by rw [String.append_assoc], _, rfl, ⟨positive, rfl⟩, bounded⟩

theorem lastMax_some (best : Nat × String) (ps : List (Nat × String)) :
    ∃ p, lastMax (some best) ps = some p ∧ (p = best ∨ p ∈ ps) ∧ best.1 ≤ p.1 ∧
      ∀ q ∈ ps, q.1 ≤ p.1 := by
  induction ps generalizing best with
  | nil => exact ⟨best, rfl, Or.inl rfl, le_rfl, by simp⟩
  | cons q ps ih =>
    obtain ⟨p, found, member, least, greatest⟩ := ih (if best.1 ≤ q.1 then q else best)
    refine ⟨p, found, ?_, ?_, ?_⟩
    · split at member
      · rcases member with rfl | member
        · exact Or.inr (by simp)
        · exact Or.inr (by simp [member])
      · rcases member with rfl | member
        · exact Or.inl rfl
        · exact Or.inr (by simp [member])
    · split at least <;> omega
    · intro r hr
      rcases List.mem_cons.mp hr with rfl | hr
      · split at least <;> omega
      · exact greatest r hr

/-- An iterator maximum is a greatest element, and only an empty one has none. -/
theorem lastMax_none (ps : List (Nat × String)) :
    (lastMax none ps = none ∧ ps = []) ∨
      ∃ p ∈ ps, lastMax none ps = some p ∧ ∀ q ∈ ps, q.1 ≤ p.1 := by
  cases ps with
  | nil => exact Or.inl ⟨rfl, rfl⟩
  | cons q ps =>
    obtain ⟨p, found, member, least, greatest⟩ := lastMax_some q ps
    refine Or.inr ⟨p, ?_, found, ?_⟩
    · rcases member with rfl | member
      · simp
      · simp [member]
    · intro r hr
      rcases List.mem_cons.mp hr with rfl | hr
      · exact least
      · exact greatest r hr

/-- Nothing is picked when no version is of the base, and otherwise the one with the
greatest revision is. -/
theorem newestForBase_cases (base : String) (versions : List String) :
    (newestForBase base versions = none ∧
      ∀ v ∈ versions, ∀ n, ¬ (Revises base v n ∧ n < 2 ^ 64)) ∨
    ∃ v ∈ versions, ∃ n, newestForBase base versions = some v ∧
      (Revises base v n ∧ n < 2 ^ 64) ∧
      ∀ u ∈ versions, ∀ m, Revises base u m ∧ m < 2 ^ 64 → m ≤ n := by
  have listed : ∀ n u, (n, u) ∈ (versions.filterMap fun version =>
      (revisionOf base version).map fun revision => (revision, version)) ↔
      u ∈ versions ∧ Revises base u n ∧ n < 2 ^ 64 := by
    intro n u
    simp only [List.mem_filterMap, Option.map_eq_some_iff, Prod.mk.injEq, ← revisionOf_iff]
    constructor
    · rintro ⟨_, member, _, revision, rfl, rfl⟩
      exact ⟨member, revision⟩
    · rintro ⟨member, revision⟩
      exact ⟨u, member, n, revision, rfl, rfl⟩
  rcases lastMax_none (versions.filterMap fun version =>
      (revisionOf base version).map fun revision => (revision, version)) with
    ⟨missing, empty⟩ | ⟨⟨n, v⟩, member, found, greatest⟩
  · refine Or.inl ⟨by rw [newestForBase, missing]; rfl, fun v hv n revision => ?_⟩
    have := (listed n v).mpr ⟨hv, revision⟩
    rw [empty] at this
    exact absurd this List.not_mem_nil
  · obtain ⟨hv, revision⟩ := (listed n v).mp member
    refine Or.inr ⟨v, hv, n, by rw [newestForBase, found]; rfl, revision, fun u hu m hm => ?_⟩
    exact greatest (m, u) ((listed m u).mpr ⟨hu, hm⟩)

/-- The pick is determined by which versions are listed. -/
theorem newestForBase_eq_some_iff {base : String} {versions : List String} {v : String} :
    newestForBase base versions = some v ↔
      v ∈ versions ∧ ∃ n, (Revises base v n ∧ n < 2 ^ 64) ∧
        ∀ u ∈ versions, ∀ m, Revises base u m ∧ m < 2 ^ 64 → m ≤ n := by
  rcases newestForBase_cases base versions with
    ⟨missing, none⟩ | ⟨u, hu, m, found, revision, greatest⟩
  · rw [missing]
    constructor
    · exact fun h => nomatch h
    · rintro ⟨hv, n, revision, -⟩
      exact absurd revision (none v hv n)
  · rw [found]
    constructor
    · intro h
      cases h
      exact ⟨hu, m, revision, greatest⟩
    · rintro ⟨hv, n, own, most⟩
      have same : m = n := le_antisymm (most u hu m revision) (greatest v hv n own)
      subst same
      rw [revision.1.unique own.1]

/-- The newest image for a base is the listed version with the greatest revision a
machine word holds, whatever order or how often versions are listed. -/
theorem newestForBase_greatest (base : String) (versions : List String) :
    ((∃ v, newestForBase base versions = some v) ↔
      ∃ v ∈ versions, ∃ n < 2 ^ 64, Revises base v n) ∧
    (∀ v, newestForBase base versions = some v →
      v ∈ versions ∧ ∃ n < 2 ^ 64, Revises base v n ∧
        ∀ u ∈ versions, ∀ m < 2 ^ 64, Revises base u m → m ≤ n) ∧
    ∀ others : List String, (∀ v, v ∈ others ↔ v ∈ versions) →
      newestForBase base others = newestForBase base versions := by
  refine ⟨⟨?_, ?_⟩, ?_, ?_⟩
  · rintro ⟨v, found⟩
    obtain ⟨hv, n, ⟨revision, bounded⟩, -⟩ := newestForBase_eq_some_iff.mp found
    exact ⟨v, hv, n, bounded, revision⟩
  · rintro ⟨v, hv, n, bounded, revision⟩
    rcases newestForBase_cases base versions with
      ⟨-, none⟩ | ⟨u, -, m, found, -⟩
    · exact absurd ⟨revision, bounded⟩ (none v hv n)
    · exact ⟨u, found⟩
  · intro v found
    obtain ⟨hv, n, ⟨revision, bounded⟩, greatest⟩ := newestForBase_eq_some_iff.mp found
    exact ⟨hv, n, bounded, revision, fun u hu m small of => greatest u hu m ⟨of, small⟩⟩
  · intro others same
    apply Option.ext
    intro v
    simp only [newestForBase_eq_some_iff, same]

/-- A revision that a machine word does not hold is passed over. -/
theorem newestForBase_overflow :
    Revises "1" "1-18446744073709551616" (2 ^ 64) ∧
      newestForBase "1" ["1-18446744073709551616"] = none :=
  ⟨Or.inr ⟨by decide, by decide⟩, by decide⟩

end CarbideOS.Agent
