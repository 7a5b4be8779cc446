import CarbideOS.Agent.Publication
import CarbideOS.Proofs.Slots

namespace CarbideOS.Publication
open Interruptible Storage

/-- The names no file is read under before it is complete. -/
def Staging (name : String) : Prop := Text.endsWith name ".new" = true

def Raw (p : Path) : Prop := Text.endsWith p.name ".raw" = true

/-- The names a publication may not disturb, its own target aside. -/
def Watched (target p : Path) : Prop := p = target ∨ ¬ Staging p.name

/-- What a publication owes, wherever it ended. -/
structure Published (target : Path) (new : Bytes) (d : Disk) (o : Outcome Machine IoError Unit) :
    Prop where
  becomes : Disk.Becomes (Watched target) target new d o.state.disk
  raws : ∀ p, Raw p → p ≠ target → o.state.disk.content p = d.content p
  survives : o.isOk = true → o.state.disk.content target = some new ∧
    ∀ e, o.state.disk.Crash e → e.content target = some new

theorem staging_temporary (name : String) : Staging (Agent.temporaryName name) :=
  Text.endsWith_append _ _

theorem raw_not_staging {p : Path} (raw : Raw p) : ¬ Staging p.name := by
  intro staging
  rcases Text.endsWith_unique raw staging with h | h
  · exact absurd h (by decide)
  · exact absurd h (by decide)

theorem temporary_ne (name : String) : Agent.temporaryName name ≠ name := by
  intro h
  have h := congrArg (fun s => s.toList.length) h
  simp only [Agent.temporaryName, String.toList_append, List.length_append] at h
  have long : 0 < ".".toList.length := by decide
  omega

/-- The file under construction is not under any watched name. -/
theorem temporary_hidden (target : Path) : ¬ Watched target (temporaryPath target) := by
  rintro (same | visible)
  · exact temporary_ne target.name (congrArg Path.name same)
  · exact visible (staging_temporary target.name)

theorem raws_of_becomes {target : Path} {new : Bytes} {d e : Disk}
    (h : Disk.Becomes (Watched target) target new d e) (p : Path) (raw : Raw p)
    (other : p ≠ target) :
    e.content p = d.content p := by
  rcases h.now p (Or.inr (raw_not_staging raw)) with same | ⟨here, -⟩
  · exact same
  · exact absurd here other

section
variable {faults : Faults} {target : Path} {new : Bytes} {d e e' : Disk} {f : Folder} {i : Nat}
  {α β : Type}

/-- What holds at every moment of a publication that began on `d`. -/
structure Kept (target : Path) (new : Bytes) (d e : Disk) : Prop where
  sound : e.Sound Staging
  becomes : Disk.Becomes (Watched target) target new d e
  lasting : ∀ f, d.lasting f = true → e.lasting f = true

theorem Kept.refl (sound : d.Sound Staging) : Kept target new d d :=
  ⟨sound, Std.Refl.refl d, fun _ h => h⟩

theorem Kept.step (h : Kept target new d e) (sound : e'.Sound Staging)
    (becomes : Disk.Becomes (Watched target) target new e e')
    (lasting : ∀ f, e.lasting f = true → e'.lasting f = true) : Kept target new d e' :=
  ⟨sound, IsTrans.trans _ _ _ h.becomes becomes, fun f there => lasting f (h.lasting f there)⟩

/-- A program on disks that ends with `Q`, or in a state that satisfies `I`. -/
def Ensures (I : Disk → Prop) (P : Disk → Prop) (m : Io α) (Q : α → Disk → Prop) : Prop :=
  Triple (fun s => P s.disk) m ⟨fun a s => Q a s.disk, fun _ s => I s.disk, fun s => I s.disk⟩

theorem Ensures.bind {I P : Disk → Prop} {m : Io α} {R : α → Disk → Prop} {k : α → Io β}
    {Q : β → Disk → Prop} (first : Ensures I P m R) (rest : ∀ a, Ensures I (R a) (k a) Q) :
    Ensures I P (m >>= k) Q :=
  Triple.bind first rest

theorem Ensures.weaken {I P P' : Disk → Prop} {m : Io α} {Q : α → Disk → Prop}
    (h : Ensures I P m Q) (hp : ∀ d, P' d → P d) : Ensures I P' m Q :=
  Triple.weaken h fun s hs => hp s.disk hs

theorem Ensures.mono {I P : Disk → Prop} {m : Io α} {Q Q' : α → Disk → Prop}
    (h : Ensures I P m Q) (hq : ∀ a d, Q a d → Q' a d) : Ensures I P m Q' :=
  Triple.mono h (fun _ hs => hs) (fun a s hs => hq a s.disk hs) (fun _ _ hs => hs) fun _ hs => hs

theorem Ensures.of_fact {I P : Disk → Prop} {m : Io α} {Q : α → Disk → Prop} {p : Prop}
    (h : p → Ensures I P m Q) : Ensures I (fun d => P d ∧ p) m Q :=
  Triple.of_fact h

/-- A system call does what it does, or nothing. -/
theorem ensures_perform {I P : Disk → Prop} {call : Disk → Except IoError (α × Disk)}
    {Q : α → Disk → Prop} (escape : ∀ d, P d → I d)
    (effect : ∀ d a d', P d → call d = .ok (a, d') → Q a d') :
    Ensures I P (perform faults call) Q := by
  intro s hs
  unfold perform
  cases faults.fate s.time with
  | stops => exact escape s.disk hs
  | fails error => exact escape s.disk hs
  | done =>
    cases there : call s.disk with
    | error error => exact escape s.disk hs
    | ok pair =>
      obtain ⟨a, d'⟩ := pair
      exact effect s.disk a d' hs there

theorem ensures_pure {I P : Disk → Prop} {Q : α → Disk → Prop} {a : α} (h : ∀ d, P d → Q a d) :
    Ensures I P (pure a) Q :=
  Triple.pure fun s hs => h s.disk hs

theorem ensures_fail {I P : Disk → Prop} {Q : α → Disk → Prop} {error : IoError}
    (h : ∀ d, P d → I d) : Ensures I P (Prog.fail error) Q :=
  Triple.fail fun s hs => h s.disk hs

/-- A program that keeps what holds at every moment, however it ends. -/
abbrev Stays (I : Disk → Prop) (m : Io α) : Prop := Ensures I I m fun _ => I

section
variable {I : Disk → Prop}

theorem Stays.bind {m : Io α} {k : α → Io β} (first : Stays I m) (rest : ∀ a, Stays I (k a)) :
    Stays I (m >>= k) :=
  Ensures.bind first rest

theorem stays_pure (a : α) : Stays I (pure a : Io α) := ensures_pure fun _ h => h

theorem stays_perform {call : Disk → Except IoError (α × Disk)}
    (effect : ∀ d a d', I d → call d = .ok (a, d') → I d') : Stays I (perform faults call) :=
  ensures_perform (fun _ h => h) effect

theorem Stays.attempt {m : Io α} (h : Stays I m) :
    Stays I (Prog.attempt m : Io (Except IoError α)) :=
  Triple.attempt h

end

theorem mkdir_keeps : Stays (Kept target new d) (mkdir faults f) := by
  refine stays_perform fun e a e' h there => ?_
  cases absent : e.made f with
  | true => simp [absent] at there
  | false =>
    cases f with
    | nil => simp [absent] at there
    | cons c up =>
      cases above : e.made up with
      | false => simp [absent, above] at there
      | true =>
        simp only [absent, above, if_true, Bool.false_eq_true, if_false, Except.ok.injEq,
          Prod.mk.injEq] at there
        obtain ⟨-, rfl⟩ := there
        refine h.step (h.sound.mkdir above) (Disk.Becomes.mkdir h.sound absent) fun g lasts => ?_
        have other : g ≠ c :: up := by
          rintro rfl
          rw [h.sound.lasts _ lasts] at absent
          cases absent
        simpa [Disk.mkdir, other] using lasts

theorem unlessDir_keeps {error : IoError} : Stays (Kept target new d) (unlessDir f error) := by
  intro s hs
  change (if s.disk.made f then (pure () : Io Unit) else Prog.fail error) s |>.Meets _
  cases s.disk.made f with
  | true => exact hs
  | false => exact hs

theorem createDirAll_keeps : Stays (Kept target new d) (createDirAll faults f) := by
  induction f with
  | nil =>
    refine mkdir_keeps.attempt.bind fun made => ?_
    cases made with
    | ok u => exact stays_pure ()
    | error error => exact unlessDir_keeps
  | cons c up ih =>
    refine mkdir_keeps.attempt.bind fun made => ?_
    cases made with
    | ok u => exact stays_pure ()
    | error error =>
      by_cases missing : error.kind = .notFound
      · change Stays (Kept target new d) (if error.kind = .notFound then _ else _)
        rw [if_pos missing]
        refine ih.bind fun _ => mkdir_keeps.attempt.bind fun again => ?_
        cases again with
        | ok u => exact stays_pure ()
        | error error => exact unlessDir_keeps
      · change Stays (Kept target new d) (if error.kind = .notFound then _ else _)
        rw [if_neg missing]
        exact unlessDir_keeps

theorem inspect_keeps {I P : Disk → Prop} (escape : ∀ d, P d → I d) :
    Ensures I P (inspect faults) fun _ => P := by
  refine ensures_perform escape fun e a e' h there => ?_
  obtain ⟨-, rfl⟩ := Prod.mk.inj (Except.ok.inj there)
  exact h

theorem removeFile_keeps : Stays (Kept target new d)
    (removeFile faults (temporaryPath target)) := by
  refine stays_perform fun e a e' h there => ?_
  cases found : e.lookup (temporaryPath target) with
  | none => simp [found] at there
  | some i =>
    simp only [found, Except.ok.injEq, Prod.mk.injEq] at there
    obtain ⟨-, rfl⟩ := there
    exact h.step (h.sound.unlink _) (Disk.Becomes.unlink (temporary_hidden target)) fun _ h => h

structure Building (target : Path) (new : Bytes) (d : Disk) (i : Nat) (data : Bytes) (e : Disk) :
    Prop where
  kept : Kept target new d e
  there : e.lookup (temporaryPath target) = some i
  hidden : ∀ p l, Watched target p → (e.directory p.folder).World l → l p.name ≠ some i
  data : (e.file i).data = data

theorem lookup_eq_some {p : Path} : d.lookup p = some i ↔
    d.made p.folder = true ∧ (d.directory p.folder).now p.name = some i := by
  unfold Disk.lookup
  cases d.made p.folder <;> simp

theorem create_builds (h : Kept target new d e) (made : e.made target.folder = true) :
    Building target new d e.next [] (e.create (temporaryPath target)) := by
  refine ⟨h.step (h.sound.create _) (Disk.Becomes.create h.sound (temporary_hidden target))
    fun _ h => h, lookup_eq_some.mpr ⟨made, ?_⟩, fun p l seen world there => ?_, ?_⟩
  · simp [Disk.create, Disk.record, Disk.setDirectory, Update.apply]
  · obtain ⟨folder, name⟩ := h.sound.only_created world there
    have same : p = temporaryPath target := by
      obtain ⟨folder', name'⟩ := p
      subst folder name
      rfl
    exact temporary_hidden target (same ▸ seen)
  · simp [Disk.create, Disk.record, Disk.setDirectory, Disk.setFile]

theorem createNew_builds : Ensures (Kept target new d) (Kept target new d)
    (createNew faults (temporaryPath target)) fun i => Building target new d i [] := by
  refine ensures_perform (fun _ h => h) fun e a e' h there => ?_
  cases found : e.lookup (temporaryPath target) with
  | some i => simp [found] at there
  | none =>
    cases made : e.made (temporaryPath target).folder with
    | false => simp [found, made] at there
    | true =>
      simp only [found, made, if_true, Except.ok.injEq, Prod.mk.injEq] at there
      obtain ⟨rfl, rfl⟩ := there
      exact create_builds h made

/-- A new file's bytes change. -/
theorem Building.set {data data' : Bytes} {synced : Bool} (h : Building target new d i data e) :
    Building target new d i data' (e.setFile i ⟨data', synced⟩) :=
  ⟨h.kept.step (h.kept.sound.setFile i _) (Disk.Becomes.setFile h.hidden) fun _ h => h, h.there,
    h.hidden, by simp [Disk.setFile]⟩

theorem writeAll_builds (bytes data : Bytes) : Ensures (Kept target new d)
    (Building target new d i data) (writeAll faults i bytes)
    fun _ => Building target new d i (data ++ bytes) := by
  induction bytes using writeAll.induct faults generalizing data with
  | case1 =>
    rw [writeAll]
    refine ensures_pure fun e h => ?_
    rw [List.append_nil]
    exact h
  | case2 b rest ih =>
    rw [writeAll]
    refine Triple.read fun s hs => ?_
    have written : Ensures (Kept target new d) (Building target new d i data)
        (write faults i (b :: rest.take (faults.chunk s.time)))
        fun _ => Building target new d i (data ++ b :: rest.take (faults.chunk s.time)) := by
      refine ensures_perform (fun _ h => h.kept) fun e a e' h there => ?_
      obtain ⟨-, rfl⟩ := Prod.mk.inj (Except.ok.inj there)
      rw [← h.data]
      exact (h.data ▸ h).set
    have whole := written.bind fun _ => ih s (data ++ b :: rest.take (faults.chunk s.time))
    rw [List.append_assoc, List.cons_append, List.take_append_drop] at whole
    exact Triple.weaken whole fun t same => same ▸ hs

theorem copy_builds (bytes : Bytes) : Ensures (Kept target new d) (Building target new d i [])
    (copy faults bytes i) fun n e => n = bytes.length ∧ Building target new d i bytes e := by
  have looked : Ensures (Kept target new d) (Building target new d i []) (inspect faults)
      fun _ => Building target new d i [] := inspect_keeps fun _ h => h.kept
  exact looked.bind fun _ => (writeAll_builds bytes []).bind fun _ =>
    ensures_pure fun e h => ⟨rfl, h⟩

def Whole (target : Path) (new : Bytes) (d : Disk) (i : Nat) (e : Disk) : Prop :=
  Building target new d i new e ∧ (e.file i).synced = true

/-- The target refers to a whole file. -/
structure Renamed (target : Path) (new : Bytes) (d e : Disk) : Prop where
  kept : Kept target new d e
  made : e.made target.folder = true
  whole : ∃ i, (e.directory target.folder).now target.name = some i ∧ e.file i = ⟨new, true⟩

/-- And nothing else can be there after a crash. -/
structure Settled (target : Path) (new : Bytes) (d e : Disk) : Prop where
  renamed : Renamed target new d e
  synced : ∃ l, e.directory target.folder = ⟨l, []⟩

theorem syncAll_whole : Ensures (Kept target new d) (Building target new d i new) (syncAll faults i)
    fun _ => Whole target new d i := by
  refine ensures_perform (fun _ h => h.kept) fun e a e' h there => ?_
  obtain ⟨-, rfl⟩ := Prod.mk.inj (Except.ok.inj there)
  rw [h.data]
  exact ⟨h.set, by simp [Disk.setFile]⟩

theorem rename_renames : Ensures (Kept target new d) (Whole target new d i)
    (rename faults target.folder (temporaryPath target).name target.name)
    fun _ => Renamed target new d := by
  refine ensures_perform (fun _ h => h.1.kept) fun e a e' h there => ?_
  obtain ⟨building, synced⟩ := h
  have found : e.lookup ⟨target.folder, (temporaryPath target).name⟩ = some i := building.there
  simp only [found, Except.ok.injEq, Prod.mk.injEq] at there
  obtain ⟨-, rfl⟩ := there
  obtain ⟨made, now⟩ := lookup_eq_some.mp building.there
  have file : e.file i = ⟨new, true⟩ := by
    rw [← building.data, ← synced]
  refine ⟨building.kept.step (building.kept.sound.rename (staging_temporary target.name) now)
    (Disk.Becomes.rename (temporary_hidden target) file) fun _ h => h, made, i, ?_, file⟩
  have now : (e.directory target.folder).now (temporaryPath target).name = some i := now
  rw [Disk.record_now, if_pos rfl]
  simp only [Update.apply, now, if_true, Function.update_self]

theorem syncFolder_settles : Ensures (Kept target new d) (Renamed target new d)
    (syncFolder faults target.folder) fun _ => Settled target new d := by
  refine ensures_perform (fun _ h => h.kept) fun e a e' h there => ?_
  simp only [h.made, if_true, Except.ok.injEq, Prod.mk.injEq] at there
  obtain ⟨-, rfl⟩ := there
  have lasting : ∀ g, e.lasting g = true → (e.syncFolder target.folder).lasting g = true := by
    intro g lasts
    simp [Disk.syncFolder, lasts]
  have synced : (e.syncFolder target.folder).directory target.folder =
      ⟨(e.directory target.folder).now, []⟩ := by
    simp [Disk.syncFolder, Disk.setDirectory, Directory.sync]
  refine ⟨⟨h.kept.step (h.kept.sound.syncFolder _)
    (Disk.Becomes.syncFolder e target.folder) lasting,
    h.made, ?_⟩, _, synced⟩
  obtain ⟨i, now, file⟩ := h.whole
  exact ⟨i, by rw [synced]; exact now, file⟩

theorem Settled.survives (h : Settled target new d e) (rooted : d.Rooted target.folder) :
    e.content target = some new ∧ ∀ e', e.Crash e' → e'.content target = some new := by
  obtain ⟨l, synced⟩ := h.synced
  obtain ⟨i, now, file⟩ := h.renamed.whole
  rw [synced] at now
  have settled :=
    Disk.content_of_settled (rooted.mono h.renamed.kept.lasting) h.renamed.made synced now
    (by rw [file])
  rw [file] at settled
  exact settled

theorem take_whole {source : Source} {maximum : UInt64}
    (fits : (source.val.take (Agent.saturatingAdd maximum.toNat 1)).length ≤ maximum.toNat) :
    source.val.take (Agent.saturatingAdd maximum.toNat 1) = source.val ∧
      source.val.length ≤ maximum.toNat := by
  have small := source.property
  rw [List.length_take, Agent.saturatingAdd] at fits
  have bound := maximum.toNat_lt
  have short : source.val.length ≤ maximum.toNat := by omega
  refine ⟨List.take_of_length_le ?_, short⟩
  rw [Agent.saturatingAdd]
  omega

theorem copyIntoPlace_settles {source : Source} {maximum : UInt64} :
    Ensures (Kept target source.val d) (Kept target source.val d)
      (copyIntoPlace faults source target maximum)
      fun _ e => Settled target source.val d e ∧ source.val.length ≤ maximum.toNat := by
  refine createNew_builds.bind fun i => (copy_builds _).bind fun copied => ?_
  have fits : Ensures (Kept target source.val d)
      (fun e => copied = (source.val.take (Agent.saturatingAdd maximum.toNat 1)).length ∧
        Building target source.val d i (source.val.take (Agent.saturatingAdd maximum.toNat 1)) e)
      (Prog.demand (copied ≤ maximum.toNat)
        ⟨.invalidData, "source grew beyond its reserved size"⟩)
      fun _ e => Building target source.val d i source.val e ∧
        source.val.length ≤ maximum.toNat := by
    refine Triple.demand (fun fits s hs => ?_) fun _ s hs => hs.2.kept
    obtain ⟨rfl, building⟩ := hs
    obtain ⟨whole, short⟩ := take_whole (of_decide_eq_true fits)
    rw [whole] at building
    exact ⟨building, short⟩
  have looked : Ensures (Kept target source.val d)
      (fun e => Building target source.val d i source.val e ∧ source.val.length ≤ maximum.toNat)
      (setPermissions faults)
      fun _ e => Building target source.val d i source.val e ∧ source.val.length ≤ maximum.toNat :=
    inspect_keeps fun _ h => h.1.kept
  refine fits.bind fun _ => looked.bind fun _ => Ensures.of_fact fun short => ?_
  exact syncAll_whole.bind fun _ => rename_renames.bind fun _ =>
    syncFolder_settles.mono fun _ e h => ⟨h, short⟩

theorem durableCopyFile_settles {source : Source} {maximum : UInt64} :
    Ensures (Kept target source.val d) (Kept target source.val d)
      (durableCopyFile faults source target maximum)
      fun _ e => Settled target source.val d e ∧ source.val.length ≤ maximum.toNat := by
  refine Ensures.bind createDirAll_keeps fun _ => Ensures.bind removeFile_keeps.attempt fun _ =>
    (inspect_keeps fun _ h => h).bind fun _ => ?_
  have tried : Ensures (Kept target source.val d) (Kept target source.val d)
      (Prog.attempt (copyIntoPlace faults source target maximum) : Io (Except IoError Unit))
      fun result e => match result with
        | .ok _ => Settled target source.val d e ∧ source.val.length ≤ maximum.toNat
        | .error _ => Kept target source.val d e :=
    Triple.attempt copyIntoPlace_settles
  refine tried.bind fun result => ?_
  cases result with
  | ok u => exact ensures_pure fun _ h => h
  | error error => exact Ensures.bind removeFile_keeps.attempt fun _ => ensures_fail fun _ h => h

theorem state_not_staging : ¬ Staging statePath.name := by
  change ¬ Text.endsWith "state.json" ".new" = true
  decide

/-- An old unpublished record is emptied. Nothing else is in that file. -/
theorem createFile_builds : Ensures (Kept statePath new d) (Kept statePath new d)
    (createFile faults (temporaryPath statePath)) fun i => Building statePath new d i [] := by
  refine ensures_perform (fun _ h => h) fun e a e' h there => ?_
  cases found : e.lookup (temporaryPath statePath) with
  | some i =>
    simp only [found, Except.ok.injEq, Prod.mk.injEq] at there
    obtain ⟨rfl, rfl⟩ := there
    obtain ⟨made, now⟩ := lookup_eq_some.mp found
    have hidden : ∀ p l, Watched statePath p → (e.directory p.folder).World l →
        l p.name ≠ some i := by
      intro p l seen world there
      have staging : Staging p.name := by
        have same := h.sound.home _ _ _ _ _ _ _ (Directory.world_now _) world now there
        rw [← same] at world
        exact h.sound.apart _ l _ _ i (staging_temporary statePath.name) now world there
      rcases seen with rfl | visible
      · exact state_not_staging staging
      · exact visible staging
    exact ⟨h.step (h.sound.setFile i _) (Disk.Becomes.setFile hidden) fun _ h => h, found, hidden,
      by simp [Disk.setFile]⟩
  | none =>
    cases made : e.made (temporaryPath statePath).folder with
    | false => simp [found, made] at there
    | true =>
      simp only [found, made, if_true, Except.ok.injEq, Prod.mk.injEq] at there
      obtain ⟨rfl, rfl⟩ := there
      exact create_builds h made

theorem store_settles {encoded : Bytes} :
    Ensures (Kept statePath (encoded ++ [newline]) d) (Kept statePath (encoded ++ [newline]) d)
      (store faults encoded) fun _ => Settled statePath (encoded ++ [newline]) d :=
  Ensures.bind createDirAll_keeps fun _ => createFile_builds.bind fun _ =>
    (writeAll_builds _ []).bind
    fun _ => syncAll_whole.bind fun _ => rename_renames.bind fun _ => syncFolder_settles

/-- However it ends. -/
theorem Ensures.kept {m : Io Unit} {Q : Unit → Disk → Prop} {time : Nat} (sound : d.Sound Staging)
    (h : Ensures (Kept target new d) (Kept target new d) m Q)
    (last : ∀ e, Q () e → Kept target new d e) : Kept target new d (m ⟨d, time⟩).state.disk := by
  have done := h ⟨d, time⟩ (Kept.refl sound)
  cases there : m ⟨d, time⟩ with
  | ok u s =>
    rw [there] at done
    exact last s.disk done
  | error error s =>
    rw [there] at done
    exact done
  | halt s =>
    rw [there] at done
    exact done

theorem Ensures.settled {m : Io Unit} {p : Prop} {time : Nat} (sound : d.Sound Staging)
    (h : Ensures (Kept target new d) (Kept target new d) m fun _ e => Settled target new d e ∧ p)
    (returned : (m ⟨d, time⟩).isOk = true) :
    Settled target new d (m ⟨d, time⟩).state.disk ∧ p := by
  have done := h ⟨d, time⟩ (Kept.refl sound)
  obtain ⟨u, there⟩ := Outcome.ok_of_isOk returned
  rw [there] at done
  exact done

theorem Ensures.published {m : Io Unit} {p : Prop} {time : Nat} (sound : d.Sound Staging)
    (h : Ensures (Kept target new d) (Kept target new d) m fun _ e => Settled target new d e ∧ p)
    (rooted : p → d.Rooted target.folder) : Published target new d (m ⟨d, time⟩) := by
  have kept : Kept target new d (m ⟨d, time⟩).state.disk := h.kept sound fun e h => h.1.renamed.kept
  refine ⟨kept.becomes, raws_of_becomes kept.becomes, fun returned => ?_⟩
  obtain ⟨settled, fact⟩ := h.settled sound returned
  exact settled.survives (rooted fact)

theorem History.sound {start : Disk} (sound : start.Sound Staging) (h : History start d) :
    d.Sound Staging := by
  induction h with
  | start => exact sound
  | copied before faults time source target maximum ih =>
    exact (durableCopyFile_settles.kept ih fun _ h => h.1.renamed.kept).sound
  | stored before faults time encoded ih =>
    exact (store_settles.kept ih fun _ h => h.renamed.kept).sound
  | removed before p ih => exact ih.unlink _
  | synced before f ih => exact ih.syncFolder f
  | crashed before crash ih => exact ih.crash crash

end

def calm : Faults := ⟨fun _ => .done, fun _ => 0⟩

section
variable {d e : Disk} {f : Folder} {p : Path} {i : Nat} {α : Type}

/-- It returns, with `Q`. -/
abbrev Succeeds (P : Disk → Prop) (m : Io α) (Q : α → Disk → Prop) : Prop :=
  Ensures (fun _ => False) P m Q

theorem calm_perform {P : Disk → Prop} {call : Disk → Except IoError (α × Disk)}
    {Q : α → Disk → Prop} (effect : ∀ d, P d → ∃ a d', call d = .ok (a, d') ∧ Q a d') :
    Succeeds P (perform calm call) Q := by
  intro s hs
  obtain ⟨a, d', there, done⟩ := effect s.disk hs
  have ran : perform calm call s = .ok a ⟨d', s.time + 1⟩ := by
    simp [perform, calm, there]
  rw [ran]
  exact done

/-- Which directories are on disk is as it was. -/
structure Ready (d e : Disk) : Prop where
  sound : e.Sound Staging
  lasting : e.lasting = d.lasting

theorem Ready.mkdir {c : String} {up : Folder} (h : Ready d e) (above : e.made up = true)
    (absent : e.made (c :: up) = false) :
    Ready d (e.mkdir (c :: up)) ∧ (e.mkdir (c :: up)).made (c :: up) = true := by
  refine ⟨⟨h.sound.mkdir above, ?_⟩, by simp [Disk.mkdir]⟩
  rw [← h.lasting]
  funext g
  by_cases here : g = c :: up
  · subst here
    have off : e.lasting (c :: up) = false := by
      by_contra lasts
      rw [h.sound.lasts _ ((Bool.not_eq_false _).mp lasts)] at absent
      cases absent
    simp [Disk.mkdir, off]
  · simp [Disk.mkdir, here]

theorem calm_unlessDir {error : IoError} : Succeeds (fun e => Ready d e ∧ e.made f = true)
    (unlessDir f error) fun _ e => Ready d e ∧ e.made f = true := by
  intro s hs
  have ran : unlessDir f error s = .ok () s := by
    change (if s.disk.made f then (pure () : Io Unit) else Prog.fail error) s = _
    rw [hs.2]
    rfl
  rw [ran]
  exact hs

theorem attempt_mkdir (g : Folder) (s : Machine) :
    (Prog.attempt (mkdir calm g) : Io (Except IoError Unit)) s =
      match mkdir calm g s with
      | .ok a t => .ok (.ok a) t
      | .error error t => .ok (.error error) t
      | .halt t => .halt t := by
  unfold Prog.attempt
  cases mkdir calm g s <;> rfl

/-- A directory that is there is found, and a missing one reported as such. -/
theorem calm_attempt_mkdir {c : String} {up : Folder} : Succeeds (Ready d)
    (Prog.attempt (mkdir calm (c :: up)) : Io (Except IoError Unit))
    fun result e => Ready d e ∧ ((e.made (c :: up) = true ∧ ∀ error, result = .error error →
      error.kind ≠ .notFound) ∨ result = .error .notFound) := by
  intro s hs
  rw [attempt_mkdir]
  cases there : s.disk.made (c :: up) with
  | true =>
    simp only [mkdir, perform, calm, there, if_true]
    refine ⟨hs, Or.inl ⟨there, fun error same => ?_⟩⟩
    cases same
    nofun
  | false =>
    cases above : s.disk.made up with
    | true =>
      simp only [mkdir, perform, calm, there, above, if_true, Bool.false_eq_true, if_false]
      obtain ⟨ready, made⟩ := hs.mkdir above there
      exact ⟨ready, Or.inl ⟨made, nofun⟩⟩
    | false =>
      simp only [mkdir, perform, calm, there, above, Bool.false_eq_true, if_false]
      exact ⟨hs, Or.inr rfl⟩

/-- Once the directory above is there. -/
theorem calm_mkdir_again {c : String} {up : Folder} :
    Succeeds (fun e => Ready d e ∧ e.made up = true)
      (Prog.attempt (mkdir calm (c :: up)) : Io (Except IoError Unit))
      fun _ e => Ready d e ∧ e.made (c :: up) = true := by
  intro s hs
  rw [attempt_mkdir]
  cases there : s.disk.made (c :: up) with
  | true =>
    simp only [mkdir, perform, calm, there, if_true]
    exact ⟨hs.1, there⟩
  | false =>
    simp only [mkdir, perform, calm, there, hs.2, if_true, Bool.false_eq_true, if_false]
    exact hs.1.mkdir hs.2 there

theorem calm_createDirAll : Succeeds (Ready d) (createDirAll calm f)
    fun _ e => Ready d e ∧ e.made f = true := by
  induction f with
  | nil =>
    have tried : Succeeds (Ready d) (Prog.attempt (mkdir calm []) : Io (Except IoError Unit))
        fun _ e => Ready d e ∧ e.made [] = true := by
      intro s hs
      rw [attempt_mkdir]
      simp only [mkdir, perform, calm, hs.sound.root, if_true]
      exact ⟨hs, hs.sound.root⟩
    refine tried.bind fun result => ?_
    cases result with
    | ok u => exact ensures_pure fun _ h => h
    | error error => exact calm_unlessDir
  | cons c up ih =>
    refine calm_attempt_mkdir.bind fun result => ?_
    cases result with
    | ok u =>
      refine ensures_pure fun e h => ?_
      obtain ⟨ready, ⟨made, -⟩ | same⟩ := h
      · exact ⟨ready, made⟩
      · cases same
    | error error =>
      change Succeeds _ (if error.kind = .notFound then _ else _) _
      by_cases missing : error.kind = .notFound
      · rw [if_pos missing]
        refine (ih.bind fun _ => calm_mkdir_again.bind fun again => ?_).weaken fun e h => h.1
        cases again with
        | ok u => exact ensures_pure fun _ h => h
        | error error => exact calm_unlessDir
      · rw [if_neg missing]
        refine calm_unlessDir.weaken fun e h => ?_
        obtain ⟨ready, ⟨made, -⟩ | same⟩ := h
        · exact ⟨ready, made⟩
        · cases same
          exact absurd rfl missing

/-- Left over or not, the temporary name is free. -/
theorem calm_removeFile : Succeeds (fun e => Ready d e ∧ e.made p.folder = true)
    (Prog.attempt (removeFile calm p) : Io (Except IoError Unit))
    fun _ e => Ready d e ∧ e.made p.folder = true ∧ e.lookup p = none := by
  intro s hs
  obtain ⟨ready, made⟩ := hs
  cases there : s.disk.lookup p with
  | none =>
    have ran : removeFile calm p s = .error .notFound { s with time := s.time + 1 } := by
      simp [removeFile, perform, calm, there]
    rw [show (Prog.attempt (removeFile calm p) : Io (Except IoError Unit)) s = _ from
      Prog.attempt_eq_ok.mpr (Or.inr ⟨_, rfl, ran⟩)]
    exact ⟨ready, made, there⟩
  | some i =>
    have ran : removeFile calm p s =
        .ok () ⟨s.disk.record p.folder (.unlink p.name), s.time + 1⟩ := by
      simp [removeFile, perform, calm, there]
    rw [show (Prog.attempt (removeFile calm p) : Io (Except IoError Unit)) s = _ from
      Prog.attempt_eq_ok.mpr (Or.inl ⟨_, rfl, ran⟩)]
    refine ⟨⟨ready.sound.unlink _, ready.lasting⟩, made, ?_⟩
    simp [Disk.lookup, Disk.record_now, Update.apply]

/-- A file is being written under the temporary name. -/
structure Writing (d : Disk) (p : Path) (i : Nat) (e : Disk) : Prop where
  lasting : e.lasting = d.lasting
  there : e.lookup p = some i

theorem calm_writeAll (bytes : Bytes) : Succeeds (Writing d p i) (writeAll calm i bytes)
    fun _ => Writing d p i := by
  induction bytes using writeAll.induct calm with
  | case1 =>
    rw [writeAll]
    exact ensures_pure fun _ h => h
  | case2 b rest ih =>
    rw [writeAll]
    refine Triple.read fun s hs => ?_
    have written : Succeeds (Writing d p i) (write calm i (b :: rest.take (calm.chunk s.time)))
        fun _ => Writing d p i := calm_perform fun _ h => ⟨(), _, rfl, h.lasting, h.there⟩
    have whole := written.bind fun _ => ih s
    exact Triple.weaken whole fun t same => same ▸ hs

theorem calm_syncAll : Succeeds (Writing d p i) (syncAll calm i) fun _ => Writing d p i :=
  calm_perform fun _ h => ⟨(), _, rfl, h.lasting, h.there⟩

theorem calm_inspect {P : Disk → Prop} : Succeeds P (inspect calm) fun _ => P :=
  calm_perform fun e h => ⟨(), e, rfl, h⟩

/-- The directories above stay as loose as they were. -/
def Finished (d : Disk) (f : Folder) (e : Disk) : Prop := e.Rooted f → d.Rooted f

theorem calm_rename {name : String} : Succeeds (Writing d p i) (rename calm p.folder p.name name)
    fun _ e => e.lasting = d.lasting ∧ e.made p.folder = true :=
  calm_perform fun e h => ⟨(), e.record p.folder (.rename p.name name i), by simp [h.there],
    h.lasting, (lookup_eq_some.mp h.there).1⟩

theorem calm_syncFolder : Succeeds (fun e => e.lasting = d.lasting ∧ e.made f = true)
    (syncFolder calm f) fun _ => Finished d f := by
  refine calm_perform fun e h => ⟨(), e.syncFolder f, by simp [h.2], fun rooted => ?_⟩
  have same : reach (e.syncFolder f).lasting f = reach d.lasting f := by
    refine Disk.reach_congr fun g suffix inside => ?_
    have other : g.tail ≠ f := by
      intro below
      have shorter := suffix.length_le
      have longer : g.length = g.tail.length + 1 := by
        cases g with
        | nil => exact absurd rfl inside
        | cons c up => rfl
      rw [below] at longer
      omega
    simp [Disk.syncFolder, other, h.1]
  exact same.symm.trans rooted

theorem calm_createNew : Succeeds (fun e => Ready d e ∧ e.made p.folder = true ∧ e.lookup p = none)
    (createNew calm p) fun i => Writing d p i := by
  refine calm_perform fun e h => ?_
  obtain ⟨ready, made, free⟩ := h
  refine ⟨e.next, e.create p, by simp [free, made], ready.lasting, lookup_eq_some.mpr ⟨made, ?_⟩⟩
  simp [Disk.create, Disk.record, Disk.setDirectory, Update.apply]

theorem calm_createFile : Succeeds (fun e => Ready d e ∧ e.made p.folder = true)
    (createFile calm p) fun i => Writing d p i := by
  refine calm_perform fun e h => ?_
  obtain ⟨ready, made⟩ := h
  cases there : e.lookup p with
  | some i => exact ⟨i, e.setFile i ⟨[], false⟩, by simp, ready.lasting, there⟩
  | none =>
    refine ⟨e.next, e.create p, by simp [made], ready.lasting, lookup_eq_some.mpr ⟨made, ?_⟩⟩
    simp [Disk.create, Disk.record, Disk.setDirectory, Update.apply]

theorem calm_copyIntoPlace {source : Source} {target : Path} {maximum : UInt64}
    (fits : source.val.length ≤ maximum.toNat) : Succeeds (fun e => Ready d e ∧
      e.made (temporaryPath target).folder = true ∧ e.lookup (temporaryPath target) = none)
      (copyIntoPlace calm source target maximum) fun _ => Finished d target.folder := by
  refine calm_createNew.bind fun i => ?_
  have copied : Succeeds (Writing d (temporaryPath target) i)
      (copy calm (source.val.take (Agent.saturatingAdd maximum.toNat 1)) i) fun n e =>
        Writing d (temporaryPath target) i e ∧ n ≤ maximum.toNat := by
    refine calm_inspect.bind fun _ => (calm_writeAll _).bind fun _ =>
      ensures_pure fun e h => ⟨h, ?_⟩
    rw [List.length_take]
    exact (min_le_right _ _).trans fits
  refine copied.bind fun n => Ensures.of_fact fun short => ?_
  have allowed : Succeeds (Writing d (temporaryPath target) i) (Prog.demand (n ≤ maximum.toNat)
      ⟨.invalidData, "source grew beyond its reserved size"⟩) fun _ =>
        Writing d (temporaryPath target) i :=
    Triple.demand (fun _ s hs => hs) fun no => absurd short (of_decide_eq_false no)
  have looked : Succeeds (Writing d (temporaryPath target) i) (setPermissions calm) fun _ =>
      Writing d (temporaryPath target) i := calm_inspect
  exact allowed.bind fun _ => looked.bind fun _ => calm_syncAll.bind fun _ =>
    calm_rename.bind fun _ =>
    calm_syncFolder

theorem calm_durableCopyFile {source : Source} {target : Path} {maximum : UInt64}
    (fits : source.val.length ≤ maximum.toNat) : Succeeds (Ready d)
      (durableCopyFile calm source target maximum) fun _ => Finished d target.folder := by
  have free : Succeeds (fun e => Ready d e ∧ e.made target.folder = true)
      (Prog.attempt (removeFile calm (temporaryPath target)) : Io (Except IoError Unit))
      fun _ e => Ready d e ∧ e.made (temporaryPath target).folder = true ∧
        e.lookup (temporaryPath target) = none := calm_removeFile (p := temporaryPath target)
  refine calm_createDirAll.bind fun _ => free.bind fun _ => calm_inspect.bind fun _ => ?_
  have tried : Succeeds (fun e => Ready d e ∧ e.made (temporaryPath target).folder = true ∧
      e.lookup (temporaryPath target) = none)
      (Prog.attempt (copyIntoPlace calm source target maximum) : Io (Except IoError Unit))
      fun result e => result = .ok () ∧ Finished d target.folder e := by
    refine Triple.attempt (Triple.mono (calm_copyIntoPlace fits) (fun _ h => h) ?_ ?_ ?_)
    · exact fun _ s h => ⟨rfl, h⟩
    · exact fun _ _ h => h.elim
    · exact fun _ h => h
  refine tried.bind fun result => ?_
  cases result with
  | ok u => exact ensures_pure fun _ h => h.2
  | error error => exact fun s hs => nomatch hs.1

theorem calm_store {encoded : Bytes} : Succeeds (Ready d) (store calm encoded)
    fun _ => Finished d stateDir := by
  have created : Succeeds (fun e => Ready d e ∧ e.made stateDir = true)
      (createFile calm (temporaryPath statePath)) fun i => Writing d (temporaryPath statePath) i :=
    calm_createFile (p := temporaryPath statePath)
  exact calm_createDirAll.bind fun _ => created.bind fun i => (calm_writeAll _).bind fun _ =>
    calm_syncAll.bind fun _ => calm_rename.bind fun _ => calm_syncFolder

/-- A publication that returns without its directory on disk can be lost. -/
theorem Succeeds.rooted {m : Io Unit} {target : Path} {new : Bytes} (sound : d.Sound Staging)
    (h : Succeeds (Ready d) m fun _ => Finished d target.folder)
    (kept : (m ⟨d, 0⟩).state.disk.Sound Staging) (published : Published target new d (m ⟨d, 0⟩)) :
    d.Rooted target.folder := by
  have done := h ⟨d, 0⟩ ⟨sound, rfl⟩
  cases there : m ⟨d, 0⟩ with
  | ok u s =>
    rw [there] at done kept published
    have done : Finished d target.folder s.disk := done
    by_contra loose
    obtain ⟨e, crash, gone⟩ := Disk.exists_loss (p := target) kept fun rooted => loose (done rooted)
    rw [(published.survives rfl).2 e crash] at gone
    cases gone
  | error error s =>
    rw [there] at done
    exact done.elim
  | halt s =>
    rw [there] at done
    exact done.elim

theorem durableCopyFile_published_iff (sound : d.Sound Staging) (source : Source) (target : Path)
    (maximum : UInt64) :
    (∀ faults time, Published target source.val d
      (durableCopyFile faults source target maximum ⟨d, time⟩)) ↔
      (source.val.length ≤ maximum.toNat → d.Rooted target.folder) := by
  constructor
  · intro published fits
    exact (calm_durableCopyFile fits).rooted sound
      (durableCopyFile_settles.kept sound fun _ h => h.1.renamed.kept).sound (published calm 0)
  · intro rooted faults time
    exact durableCopyFile_settles.published sound rooted

theorem store_published_iff (sound : d.Sound Staging) (encoded : Bytes) :
    (∀ faults time, Published statePath (encoded ++ [newline]) d (store faults encoded ⟨d, time⟩)) ↔
      d.Rooted stateDir := by
  constructor
  · intro published
    exact calm_store.rooted sound (store_settles.kept sound fun _ h => h.renamed.kept).sound
      (published calm 0)
  · intro rooted faults time
    have settles : Ensures (Kept statePath (encoded ++ [newline]) d)
        (Kept statePath (encoded ++ [newline]) d) (store faults encoded)
        fun _ e => Settled statePath (encoded ++ [newline]) d e ∧ True :=
      store_settles.mono fun _ _ h => ⟨h, trivial⟩
    exact settles.published sound fun _ => rooted

end

/-- After any publications, removals and crashes, at whatever point they ended. -/
theorem publication_atomic_iff {start d : Disk} (sound : start.Sound Staging)
    (h : History start d) :
    (∀ (source : Source) (target : Path) (maximum : UInt64),
      (∀ faults time, Published target source.val d
        (durableCopyFile faults source target maximum ⟨d, time⟩)) ↔
        (source.val.length ≤ maximum.toNat → d.Rooted target.folder)) ∧
    ∀ encoded : Bytes, (∀ faults time, Published statePath (encoded ++ [newline]) d
        (store faults encoded ⟨d, time⟩)) ↔ d.Rooted stateDir :=
  ⟨durableCopyFile_published_iff (h.sound sound), store_published_iff (h.sound sound)⟩

/-- A file system with nothing but its root. -/
def blank : Disk where
  made f := f.isEmpty
  lasting _ := false
  directory _ := .empty
  file _ := ⟨[], true⟩
  next := 0

theorem blank_sound : blank.Sound Staging := by
  have nothing : ∀ f l (a : String) i, (blank.directory f).World l → l a ≠ some i := by
    intro f l a i world there
    rw [Directory.world_settled.mp world] at there
    cases there
  exact ⟨rfl, fun c up h => (by cases h), fun f h => (by cases h),
    fun f l a i world there => absurd there (nothing f l a i world),
    fun f l a b i world there => absurd there (nothing f l a i world),
    fun f g l l' a b i world _ there => absurd there (nothing f l a i world),
    fun f l a b i _ _ world there => absurd there (nothing f l b i world)⟩

/-- The first record of a node, stored and then crashed on. -/
theorem publication_atomic_iff_blank : (∀ (source : Source) (target : Path) (maximum : UInt64),
      (∀ faults time, Published target source.val blank
        (durableCopyFile faults source target maximum ⟨blank, time⟩)) ↔
        (source.val.length ≤ maximum.toNat → blank.Rooted target.folder)) ∧
    ∀ encoded : Bytes, (∀ faults time, Published statePath (encoded ++ [newline]) blank
        (store faults encoded ⟨blank, time⟩)) ↔ blank.Rooted stateDir :=
  publication_atomic_iff blank_sound .start

/-- The first record of a node can be lost after it was stored. -/
theorem first_record_lost : ∃ e, (store calm [] ⟨blank, 0⟩).isOk = true ∧
    (store calm [] ⟨blank, 0⟩).state.disk.Crash e ∧ e.content statePath = none := by
  have kept : (store calm [] ⟨blank, 0⟩).state.disk.Sound Staging :=
    (store_settles.kept blank_sound fun _ h => h.renamed.kept).sound
  have succeeds : Succeeds (Ready blank) (store calm []) fun _ => Finished blank stateDir :=
    calm_store
  have done := succeeds ⟨blank, 0⟩ ⟨blank_sound, rfl⟩
  cases there : store calm [] ⟨blank, 0⟩ with
  | ok u s =>
    rw [there] at done kept
    have loose : ¬ s.disk.Rooted stateDir := fun rooted =>
      absurd (done rooted) (by decide : ¬ blank.Rooted stateDir)
    obtain ⟨e, crash, gone⟩ := Disk.exists_loss (p := statePath) kept loose
    exact ⟨e, rfl, crash, gone⟩
  | error error s =>
    rw [there] at done
    exact done.elim
  | halt s =>
    rw [there] at done
    exact done.elim

/-! The images of a node are files of this kind, and publishing one is one step of the node. -/

def folderOf : Agent.Place → Folder
  | .extensions => ["extensions", "lib", "var"]
  | .staging => [".carbide-staging", "extensions", "lib", "var"]

def diskPath (p : Agent.Path) : Path := ⟨folderOf p.place, p.name⟩

/-- The node lists what is on the disk, unpublished copies aside. -/
def Shows (w : Agent.Node) (d : Disk) : Prop :=
  ∀ p : Agent.Path, ¬ Staging p.name → w.readFile p = d.content (diskPath p)

theorem folderOf_injective {x y : Agent.Place} (h : folderOf x = folderOf y) : x = y := by
  cases x <;> cases y
  case extensions.extensions => rfl
  case staging.staging => rfl
  all_goals simp [folderOf] at h

theorem diskPath_injective {p q : Agent.Path} (h : diskPath p = diskPath q) : p = q := by
  obtain ⟨folder, name⟩ := Storage.Path.mk.inj h
  obtain ⟨place, name₁⟩ := p
  obtain ⟨place', name₂⟩ := q
  obtain rfl : place = place' := folderOf_injective folder
  obtain rfl : name₁ = name₂ := name
  rfl

/-- A copy that ends anywhere is the node's copy, made or not made. -/
theorem durableCopyFile_refines {w : Agent.Node} {d : Disk} (sound : d.Sound Staging)
    (shows : Shows w d)
    (faults : Faults) (time : Nat) (source : Source) (target : Agent.Path) (maximum : UInt64)
    (visible : ¬ Staging target.name) :
    let o := durableCopyFile faults source (diskPath target) maximum ⟨d, time⟩
    Shows (w.publish target source.val) o.state.disk ∨ o.isOk = false ∧ Shows w o.state.disk := by
  intro o
  have becomes := (durableCopyFile_settles.kept sound fun _ h => h.1.renamed.kept :
    Kept (diskPath target) source.val d o.state.disk).becomes
  have others : ∀ p : Agent.Path, ¬ Staging p.name → p ≠ target →
      o.state.disk.content (diskPath p) = w.readFile p := by
    intro p seen other
    rcases becomes.now (diskPath p) (Or.inr seen) with same | ⟨here, -⟩
    · exact same.trans (shows p seen).symm
    · exact absurd (diskPath_injective here) other
  have published : o.state.disk.content (diskPath target) = some source.val →
      Shows (w.publish target source.val) o.state.disk := by
    intro new p seen
    have apart : p ≠ Agent.Node.temporary target := by
      rintro rfl
      exact seen (staging_temporary target.name)
    rw [Agent.Node.readFile_publish apart]
    by_cases here : p = target
    · rw [if_pos here, here, new]
    · rw [if_neg here, others p seen here]
  cases returned : o.isOk with
  | true =>
    obtain ⟨settled, -⟩ := durableCopyFile_settles.settled sound returned
    obtain ⟨i, now, file⟩ := settled.renamed.whole
    have there : o.state.disk.lookup (diskPath target) = some i :=
      lookup_eq_some.mpr ⟨settled.renamed.made, now⟩
    refine Or.inl (published ?_)
    rw [Disk.content, there]
    exact congrArg (fun x => some x.data) file
  | false =>
    rcases becomes.now (diskPath target) (Or.inl rfl) with same | ⟨-, new⟩
    · refine Or.inr ⟨rfl, fun p seen => ?_⟩
      by_cases here : p = target
      · rw [here, same]
        exact shows target visible
      · exact (others p seen here).symm
    · exact Or.inl (published new)

end CarbideOS.Publication
