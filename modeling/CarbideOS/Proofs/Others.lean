import CarbideOS.Proofs.Work

namespace CarbideOS.Agent
open Interruptible

/-- An extension nothing was done to: its images are as they were, its entries are
at most carried between memory and disk. Its candidates are not covered. -/
structure Spared (name : String) (w u : Node) : Prop where
  osRelease : u.osRelease = w.osRelease
  memory : u.memory.get name = w.memory.get name ∨ u.memory.get name = w.stored.get name
  stored : u.stored.get name = w.stored.get name ∨ u.stored.get name = w.memory.get name
  placed : ∀ base,
    u.readFile (scopedActivePath name base) = w.readFile (scopedActivePath name base)
  legacy : u.readFile (legacyActivePath name) = w.readFile (legacyActivePath name)
  rollbacks : ∀ base version, u.extensions[slotPrefix name base ++ version ++ ".rollback"]? =
    w.extensions[slotPrefix name base ++ version ++ ".rollback"]?
  standing : ∀ x, u.standing name x = w.standing name x

namespace Spared
variable {env : Environment} {name : String} {w u : Node}

theorem scope (h : Spared name w u) : u.scope = w.scope := by
  unfold Node.scope Node.osVersion Node.osReleaseValue
  rw [h.osRelease]

theorem rollbackImage (h : Spared name w u) (version : String) :
    u.rollbackImage name version = w.rollbackImage name version := by
  rw [Node.rollbackImage, Node.rollbackImage, Node.rollbackPath, Node.rollbackPath, h.scope]
  exact h.rollbacks _ _

end Spared

instance (name : String) : IsPreorder Node (Spared name) where
  refl w := ⟨rfl, Or.inl rfl, Or.inl rfl, fun _ => rfl, rfl, fun _ _ => rfl, fun _ => rfl⟩
  trans w u v h h' := by
    refine ⟨h'.osRelease.trans h.osRelease, ?_, ?_,
      fun base => (h'.placed base).trans (h.placed base),
      h'.legacy.trans h.legacy, fun b x => (h'.rollbacks b x).trans (h.rollbacks b x),
      fun x => (h'.standing x).trans (h.standing x)⟩
    · rcases h'.memory with he | he
      · rw [he]
        exact h.memory
      · rw [he]
        exact h.stored.symm
    · rcases h'.stored with he | he
      · rw [he]
        exact h.stored
      · rw [he]
        exact h.memory.symm

section
variable {env : Environment} {name other : String} {w u : Node}

theorem Aside.spared (h : Aside other w u) (hn : Plain name) (ho : Plain other)
    (hne : name ≠ other) : Spared name w u where
  osRelease := h.osRelease
  memory := h.memory name hne
  stored := h.stored name hne
  placed := h.scopedImage ho hn hne
  legacy := h.legacyImage hn hne
  rollbacks _ _ := h.files _ (not_touches_of_rollback (by simp)) (not_retained_rollback hn ho hne)
  standing := h.standing name hne

theorem Beside.spared (h : Beside other w u) (hn : Plain name) (ho : Plain other)
    (hne : name ≠ other) : Spared name w u :=
  h.aside.spared hn ho hne

theorem Untouched.spared (h : Untouched w u) : Spared name w u := by
  have hr : ∀ p : Path, p.place = .extensions → u.readFile p = w.readFile p := by
    intro p hp
    simp only [Node.readFile, hp, Node.dir, h.extensions]
  refine ⟨h.osRelease, Or.inl ?_, Or.inl ?_, fun base => hr _ rfl, hr _ rfl, ?_, ?_⟩
  · rw [h.memory]
  · rw [h.toSameRecord.stored]
  · intro base version
    rw [h.extensions]
  · intro x
    rw [Node.standing, h.history, Node.standing]

/-- Cleaning up: candidates, unpublished copies and staged files may go. -/
structure Tidied (w u : Node) : Prop extends SameRecord w u where
  merged : u.merged = w.merged
  files : ∀ f, Text.endsWith f ".candidate" = false → Text.endsWith f ".new" = false →
    u.extensions[f]? = w.extensions[f]?

instance : IsPreorder Node Tidied where
  refl w := ⟨SameRecord.refl w, rfl, fun _ _ _ => rfl⟩
  trans _ _ _ h h' := ⟨h.toSameRecord.trans h'.toSameRecord, h'.merged.trans h.merged,
    fun f hc hn => (h'.files f hc hn).trans (h.files f hc hn)⟩

theorem Tidied.spared (h : Tidied w u) : Spared name w u := by
  have raw : ∀ f, Text.endsWith f ".raw" = true → u.extensions[f]? = w.extensions[f]? := fun f hf =>
    h.files f (endsWith_false hf (by decide)) (endsWith_false hf (by decide))
  have kept : ∀ f, Text.endsWith f ".rollback" = true → u.extensions[f]? = w.extensions[f]? :=
    fun f hf => h.files f (endsWith_false hf (by decide)) (endsWith_false hf (by decide))
  refine ⟨h.osRelease, Or.inl ?_, Or.inl ?_, fun base => raw _ (endsWith_raw_scoped name base),
    raw _ (endsWith_raw_legacy name), fun _ _ => kept _ (by simp), ?_⟩
  · rw [h.memory]
  · rw [h.toSameRecord.stored]
  · intro x
    rw [Node.standing, h.history, Node.standing]

end

section Cleaning
variable (env : Environment) {ε α : Type}

theorem Tidied.tick {w u : Node} (h : Tidied w u) : Tidied w u.tick :=
  ⟨h.toSameRecord.tick, h.merged, h.files⟩

theorem quiet_tidied {m : Act ε α} (h : Quiet m) : Within Tidied m := by
  refine (Returns.within h).mono ?_
  rintro w _ ⟨t, rfl⟩
  exact ⟨⟨rfl, rfl, rfl, rfl⟩, rfl, fun _ _ _ => rfl⟩

theorem sweep_tidied {w : Node} {place : Place} {test : String → Bool}
    (h : place = .extensions → ∀ f, test f = true →
      Text.endsWith f ".candidate" = true ∨ Text.endsWith f ".new" = true) :
    Tidied w (w.sweep place test) := by
  refine ⟨SameRecord.setDir w _ _, ?_, fun f hc hn => ?_⟩
  · cases place <;> rfl
  · cases place with
    | staging => rfl
    | extensions =>
      have ht : ¬ test f = true := by
        intro ht
        rcases h rfl f ht with he | he
        · rw [hc] at he
          cases he
        · rw [hn] at he
          cases he
      change (Dir.eraseAll _ _)[f]? = _
      rw [Dir.get_sweep, if_neg ht]
      rfl

theorem pruneMatchingIn_tidied {place : Place} {start finish : String}
    (h : place = .extensions → ∀ f, Text.endsWith f finish = true →
      Text.endsWith f ".candidate" = true ∨ Text.endsWith f ".new" = true)
    (keep : Option String) :
    Within Tidied (pruneMatchingIn env place start finish keep) := by
  have ht : ∀ f, prunable start finish keep f = true → Text.endsWith f finish = true := by
    intro f hf
    simp only [prunable, Bool.and_eq_true] at hf
    exact hf.1.2
  apply Act.durable_within
  · intro w
    refine Tidied.tick (sweep_tidied fun hp f hf => h hp f (ht f ?_))
    simpa using hf
  · intro w reached leftover
    refine Tidied.tick (sweep_tidied fun hp f hf => h hp f (ht f ?_))
    simp only [Bool.and_eq_true] at hf
    exact hf.1

theorem pruneTransactionFiles_tidied : Within Tidied (pruneTransactionFiles env) := by
  refine Within.bind (pruneMatchingIn_tidied env (fun _ _ hf => Or.inr hf) _) fun _ => ?_
  apply pruneMatchingIn_tidied
  rintro ⟨⟩

theorem pruneCandidates_tidied (name : String) (keep : Option String) :
    Within Tidied (pruneCandidates env name keep) :=
  Within.read fun _ => pruneMatchingIn_tidied env (fun _ _ hf => Or.inl hf) _

theorem reportCandidates_tidied (name : String) :
    Within Tidied (reportCandidates env name : Act ε _) :=
  report_within (pruneCandidates_tidied env name none) _

theorem durableRemove_tidied {p : Path} (h : Text.endsWith p.name ".candidate" = true) :
    Within Tidied (durableRemove env p) := by
  have unlinked : ∀ w : Node, Tidied w (w.unlink p) := by
    intro w
    refine ⟨SameRecord.setDir w _ _, ?_, fun f hc _ => ?_⟩
    · rw [Node.unlink]
      cases p.place <;> rfl
    · have hne : p.name ≠ f := by
        rintro rfl
        rw [h] at hc
        cases hc
      rw [Node.unlink]
      cases hp : p.place with
      | staging => rfl
      | extensions =>
        change (Std.ExtTreeMap.erase _ _)[f]? = _
        rw [Dir.get_erase, if_neg hne]
        rfl
  refine Within.read fun w => ?_
  split
  · apply Act.durable_within
    · intro w
      exact (unlinked w).tick
    · intro w reached leftover
      split
      · exact (unlinked w).tick
      · exact Tidied.tick (Std.Refl.refl w)
  · exact Within.pure ()

theorem removeOrphans_tidied (kept : List Path) {orphans : List Path}
    (h : ∀ p ∈ orphans, Text.endsWith p.name ".candidate" = true) :
    Within Tidied (removeOrphans env kept orphans : Act ε _) := by
  induction orphans with
  | nil => exact Within.pure _
  | cons p rest ih =>
    have hrest := ih fun q hq => h q (List.mem_cons_of_mem p hq)
    unfold removeOrphans
    split
    · exact hrest
    · refine Within.bind ?_ fun _ => Within.bind hrest fun _ => Within.pure _
      exact report_within (durableRemove_tidied env (h p List.mem_cons_self)) _

theorem candidateFiles_eq {w u : Node} {files : List Path}
    (h : candidateFiles env w = .ok files u) :
    ∀ p ∈ files, Text.endsWith p.name ".candidate" = true := by
  unfold candidateFiles at h
  cases hu : env.unreadable .candidates w with
  | some e =>
    rw [hu] at h
    cases h
  | none =>
    rw [hu] at h
    cases h
    intro p hp
    obtain ⟨f, hf, rfl⟩ := List.mem_map.mp hp
    have hf := (List.mem_filter.mp hf).2
    rw [Bool.and_eq_true] at hf
    exact hf.2

theorem reconcileOrphans_tidied (kept : List Path) :
    Within Tidied (reconcileOrphans env kept : Act ε _) := by
  intro w
  have files := quiet_tidied (ε := ε) (Returns.attempt (candidateFiles_quiet env))
  refine Within.bind_at (files w) fun r u hu => ?_
  cases r with
  | error e => exact Std.Refl.refl u
  | ok candidates =>
    rcases Prog.attempt_eq_ok.mp hu with ⟨_, he, hu⟩ | ⟨_, he, -⟩
    · cases he
      exact removeOrphans_tidied env kept (candidateFiles_eq env hu) u
    · cases he

end Cleaning

section Loops
variable (env : Environment) {ε : Type} {R : Node → Node → Prop} [IsPreorder Node R]

theorem reconcileEntries_within {entries : List Snapshot}
    (h : ∀ s ∈ entries, Within R (reconcileEntry env s : Act ε _)) :
    Within R (reconcileEntries env entries : Act ε _) := by
  induction entries with
  | nil => exact Within.pure _
  | cons s rest ih =>
    refine Within.bind (h s List.mem_cons_self) fun _ => ?_
    exact Within.bind (ih fun t ht => h t (List.mem_cons_of_mem s ht)) fun _ => Within.pure _

theorem examineRequired_within {merged names : List String}
    (h : ∀ name ∈ names, Within R (verifyOrRecover env name merged)) :
    Within R (examineRequired env merged names : Act ε _) := by
  induction names with
  | nil => exact Within.pure _
  | cons name rest ih =>
    have hrest := ih fun n hn => h n (List.mem_cons_of_mem name hn)
    refine Within.bind (Within.attempt (h name List.mem_cons_self)) fun r => ?_
    cases r with
    | ok _ => exact hrest
    | error e => exact Within.bind hrest fun _ => Within.pure _

/-- A loop in which one entry's turn takes the node from one condition to another,
and the turns of all others keep both. -/
theorem reconcileEntries_through {A C : Node → Prop} {B : List String → Node → Prop}
    {entries : List Snapshot} {own : Snapshot} (hown : own ∈ entries)
    (hnodup : (entries.map Snapshot.name).Nodup)
    (before : ∀ s ∈ entries, s.name ≠ own.name →
      Keeps A (reconcileEntry env s : Act ε _))
    (turn : Triple A (reconcileEntry env own : Act ε _) ⟨B, fun _ => C, C⟩)
    (after : ∀ l, ∀ s ∈ entries, s.name ≠ own.name →
      Keeps (B l) (reconcileEntry env s : Act ε _))
    (ha : ∀ w, A w → C w) (hb : ∀ l w, B l w → C w) :
    Triple A (reconcileEntries env entries : Act ε _)
      ⟨fun failures w => ∃ l, B l w ∧ (failures = [] → l = []), fun _ => C, C⟩ := by
  induction entries with
  | nil => cases hown
  | cons s rest ih =>
    have hnot : ∀ t ∈ rest, t.name ≠ s.name := by
      intro t ht he
      have hn := (List.nodup_cons.mp hnodup).1
      rw [← he] at hn
      exact hn (List.mem_map_of_mem ht)
    by_cases hs : s.name = own.name
    · -- the turn itself: what follows keeps what it established
      have he : own = s := by
        rcases List.mem_cons.mp hown with he | he
        · exact he
        · exact absurd hs.symm (hnot own he)
      subst he
      refine Triple.bind turn fun l => ?_
      have others : Keeps (B l) (reconcileEntries env rest : Act ε _) := by
        refine within_preserves_iff.mp (reconcileEntries_within env fun t ht => ?_)
        exact within_preserves_iff.mpr (after l t (List.mem_cons_of_mem _ ht) (hnot t ht))
      refine Triple.bind (R := fun _ => B l) ?_ fun others => ?_
      · exact others.mono (fun _ => id) (fun _ _ => id) (fun _ w => hb l w) (hb l)
      · refine Triple.pure fun w hw => ⟨l, hw, fun hnil => ?_⟩
        exact (List.append_eq_nil_iff.mp hnil).1
    · refine Triple.bind (R := fun _ => A) ?_ fun failures => ?_
      · exact (before s List.mem_cons_self hs).mono (fun _ => id) (fun _ _ => id)
          (fun _ w => ha w) ha
      · have hrest : own ∈ rest := by
          rcases List.mem_cons.mp hown with he | he
          · exact absurd (by rw [he]) hs
          · exact he
        refine Triple.bind (ih hrest (List.nodup_cons.mp hnodup).2
          (fun t ht => before t (List.mem_cons_of_mem s ht))
          (fun l t ht => after l t (List.mem_cons_of_mem s ht))) fun others => ?_
        refine Triple.pure fun w hw => ?_
        obtain ⟨l, hl, hnil⟩ := hw
        exact ⟨l, hl, fun h => hnil (List.append_eq_nil_iff.mp h).2⟩

end Loops

theorem snapshots_nodup (s : State) : (s.snapshots.map Snapshot.name).Nodup := by
  have h := Std.ExtTreeMap.distinct_keys_toList (t := s.extensions)
  rw [State.snapshots, List.map_map, List.Nodup, List.pairwise_map]
  exact h.imp fun hne he => hne (by simp only [Function.comp_apply] at he; simp [he])

theorem mem_snapshots {s : State} {t : Snapshot} :
    t ∈ s.snapshots ↔ ∃ e, s.get t.name = some e ∧ t.phase = e.phase ∧
      t.candidate = e.candidateVersion ∧ t.knownGood = e.knownGoodVersion := by
  simp only [State.snapshots, List.mem_map, Prod.exists,
    Std.ExtTreeMap.mem_toList_iff_getElem?_eq_some, State.get]
  constructor
  · rintro ⟨name, e, he, rfl⟩
    exact ⟨e, he, rfl, rfl, rfl⟩
  · rintro ⟨e, he, hp, hc, hk⟩
    refine ⟨t.name, e, he, ?_⟩
    cases t
    simp_all

/-- Every extension on record has a name without the separator. -/
def PlainRecord (w : Node) : Prop := ∀ name e, Entry w name e → Plain name

section PlainNames
variable {env : Environment} {name : String} {w u : Node}

theorem Aside.plainRecord (h : Aside name w u) (hn : Plain name) :
    Preserves PlainRecord w u := by
  intro hp other e he
  by_cases ho : other = name
  · rw [ho]
    exact hn
  · rcases he with he | he
    · rcases h.memory other ho with hm | hm <;> rw [hm] at he
      · exact hp other e (Or.inl he)
      · exact hp other e (Or.inr he)
    · rcases h.stored other ho with hm | hm <;> rw [hm] at he
      · exact hp other e (Or.inr he)
      · exact hp other e (Or.inl he)

theorem SameRecord.plainRecord (h : SameRecord w u) : Preserves PlainRecord w u := by
  intro hp other e he
  rw [Entry, h.memory, h.stored] at he
  exact hp other e he

theorem plainRecord_snapshot {w : Node} (h : PlainRecord w) {s : Snapshot}
    (hs : s ∈ w.memory.snapshots) : Plain s.name := by
  obtain ⟨e, he, -⟩ := mem_snapshots.mp hs
  exact h s.name e (Or.inl he)

end PlainNames
end CarbideOS.Agent
