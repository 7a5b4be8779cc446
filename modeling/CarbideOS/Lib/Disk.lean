import Mathlib

/-! A file system across power loss. Bytes that were not synced may be anything afterwards, and
any of the directory changes since the last sync of a directory may be missing. -/

namespace Storage

abbrev Bytes := List UInt8

/-- The names of a directory and of those above it, the innermost first. -/
abbrev Folder := List String

structure Path where
  folder : Folder
  name : String
  deriving DecidableEq, Repr

/-- What the names of a directory refer to: a file by its number. -/
abbrev Listing := String → Option Nat

/-- A change of a directory that a crash leaves done or undone. -/
inductive Update where
  | link (name : String) (i : Nat)
  | unlink (name : String)
  | rename (old new : String) (i : Nat)
  deriving DecidableEq, Repr

/-- A rename whose source did not survive moves nothing. -/
def Update.apply : Update → Listing → Listing
  | .link name i, l => Function.update l name (some i)
  | .unlink name, l => Function.update l name none
  | .rename old new i, l =>
    if l old = some i then Function.update (Function.update l old none) new (some i) else l

/-- What is on disk, and the later changes, the newest first. -/
structure Directory where
  saved : Listing
  pending : List Update

namespace Directory

def empty : Directory := ⟨fun _ => none, []⟩

def after (d : Directory) (updates : List Update) : Listing := updates.foldr Update.apply d.saved

/-- What a running program sees. -/
def now (d : Directory) : Listing := d.after d.pending

/-- What may be there after a crash. -/
def World (d : Directory) (l : Listing) : Prop := ∃ kept, kept.Sublist d.pending ∧ l = d.after kept

def record (d : Directory) (u : Update) : Directory := { d with pending := u :: d.pending }

def sync (d : Directory) : Directory := ⟨d.now, []⟩

theorem world_now (d : Directory) : d.World d.now := ⟨d.pending, List.Sublist.refl _, rfl⟩

@[simp] theorem record_now (d : Directory) (u : Update) : (d.record u).now = u.apply d.now := rfl

@[simp] theorem sync_now (d : Directory) : d.sync.now = d.now := rfl

theorem world_record {d : Directory} {u : Update} {l : Listing} :
    (d.record u).World l ↔ d.World l ∨ ∃ l₀, d.World l₀ ∧ l = u.apply l₀ := by
  constructor
  · rintro ⟨kept, sub, rfl⟩
    rcases List.sublist_cons_iff.mp sub with lost | ⟨rest, rfl, older⟩
    · exact Or.inl ⟨kept, lost, rfl⟩
    · exact Or.inr ⟨d.after rest, ⟨rest, older, rfl⟩, rfl⟩
  · rintro (⟨kept, sub, rfl⟩ | ⟨_, ⟨rest, sub, rfl⟩, rfl⟩)
    · exact ⟨kept, sub.cons u, rfl⟩
    · exact ⟨u :: rest, sub.cons_cons u, rfl⟩

theorem world_settled {l l' : Listing} : (⟨l, []⟩ : Directory).World l' ↔ l' = l := by
  constructor
  · rintro ⟨kept, sub, rfl⟩
    obtain rfl := List.sublist_nil.mp sub
    rfl
  · rintro rfl
    exact ⟨[], List.Sublist.refl _, rfl⟩

theorem world_sync {d : Directory} {l : Listing} : d.sync.World l ↔ l = d.now := world_settled

end Directory

structure File where
  data : Bytes
  synced : Bool
  deriving DecidableEq, Repr

/-- `lasting` says of a directory that its own entry is on disk. -/
structure Disk where
  made : Folder → Bool
  lasting : Folder → Bool
  directory : Folder → Directory
  file : Nat → File
  next : Nat

/-- A directory is there with all of those above it. -/
def reach (kept : Folder → Bool) : Folder → Bool
  | [] => true
  | c :: up => kept (c :: up) && reach kept up

namespace Disk
variable {d e e' : Disk} {f g : Folder} {p q : Path} {i j : Nat}

def lookup (d : Disk) (p : Path) : Option Nat :=
  if d.made p.folder then (d.directory p.folder).now p.name else none

def content (d : Disk) (p : Path) : Option Bytes := (d.lookup p).map fun i => (d.file i).data

def setDirectory (d : Disk) (f : Folder) (x : Directory) : Disk :=
  { d with directory := Function.update d.directory f x }

def setFile (d : Disk) (i : Nat) (x : File) : Disk := { d with file := Function.update d.file i x }

def record (d : Disk) (f : Folder) (u : Update) : Disk :=
  d.setDirectory f ((d.directory f).record u)

def mkdir (d : Disk) (f : Folder) : Disk :=
  { d.setDirectory f .empty with
    made := Function.update d.made f true, lasting := Function.update d.lasting f false }

/-- A new empty file. -/
def create (d : Disk) (p : Path) : Disk :=
  { (d.setFile d.next ⟨[], false⟩).record p.folder (.link p.name d.next) with next := d.next + 1 }

/-- The names in a directory are on disk, those of directories as well. -/
def syncFolder (d : Disk) (f : Folder) : Disk :=
  { d.setDirectory f (d.directory f).sync with
    lasting := fun g => d.lasting g || (d.made g && g != [] && g.tail == f) }

/-- What a crash leaves: some directories, a world of each, and any bytes in unsynced files. -/
def survivor (d : Disk) (kept : Folder → Bool) (listing : Folder → Listing) (data : Nat → Bytes) :
    Disk where
  made := reach kept
  lasting := reach kept
  directory f := ⟨if reach kept f then listing f else fun _ => none, []⟩
  file i := ⟨data i, true⟩
  next := d.next

structure Survives (d : Disk) (kept : Folder → Bool) (listing : Folder → Listing)
    (data : Nat → Bytes) : Prop where
  lasting : ∀ f, d.lasting f = true → kept f = true
  made : ∀ f, kept f = true → d.made f = true
  world : ∀ f, (d.directory f).World (listing f)
  synced : ∀ i, (d.file i).synced = true → data i = (d.file i).data

def Crash (d e : Disk) : Prop :=
  ∃ kept listing data, d.Survives kept listing data ∧ e = d.survivor kept listing data

/-- The directory is there after every crash. -/
def Rooted (d : Disk) (f : Folder) : Prop := reach d.lasting f = true

instance (d : Disk) (f : Folder) : Decidable (d.Rooted f) :=
  inferInstanceAs (Decidable (_ = true))

/-- What a kernel keeps to: a file has one name at a time, in one directory, and what is under a
staging name was under no other kind of name before. -/
structure Sound (staging : String → Prop) (d : Disk) : Prop where
  root : d.made [] = true
  parents : ∀ c up, d.made (c :: up) = true → d.made up = true
  lasts : ∀ f, d.lasting f = true → d.made f = true
  bounded : ∀ f l n i, (d.directory f).World l → l n = some i → i < d.next
  single : ∀ f l a b i, (d.directory f).World l → l a = some i → l b = some i → a = b
  home : ∀ f g l l' a b i, (d.directory f).World l → (d.directory g).World l' → l a = some i →
    l' b = some i → f = g
  apart : ∀ f l a b i, staging a → (d.directory f).now a = some i → (d.directory f).World l →
    l b = some i → staging b

/-- The bytes under the watched names change in one way only: those of the target to `new`. -/
structure Becomes (watched : Path → Prop) (target : Path) (new : Bytes) (d e : Disk) : Prop where
  now : ∀ p, watched p → e.content p = d.content p ∨ p = target ∧ e.content p = some new
  crash : ∀ e', e.Crash e' → ∃ d', d.Crash d' ∧
    ∀ p, watched p → e'.content p = d'.content p ∨ p = target ∧ e'.content p = some new

theorem reach_made {kept : Folder → Bool} (h : reach kept f = true) : f = [] ∨ kept f = true := by
  cases f with
  | nil => exact Or.inl rfl
  | cons c up =>
    rw [reach, Bool.and_eq_true] at h
    exact Or.inr h.1

theorem reach_congr {kept kept' : Folder → Bool} (h : ∀ g, g <:+ f → g ≠ [] → kept g = kept' g) :
    reach kept f = reach kept' f := by
  induction f with
  | nil => rfl
  | cons c up ih =>
    rw [reach, reach, h (c :: up) (List.suffix_refl _) (List.cons_ne_nil _ _),
      ih fun g below => h g (below.trans (List.suffix_cons c up))]

theorem reach_mono {kept kept' : Folder → Bool} (h : ∀ g, kept g = true → kept' g = true)
    (there : reach kept f = true) : reach kept' f = true := by
  induction f with
  | nil => rfl
  | cons c up ih =>
    rw [reach, Bool.and_eq_true] at there ⊢
    exact ⟨h _ there.1, ih there.2⟩

theorem reach_parent {kept : Folder → Bool} {c : String} {up : Folder}
    (h : reach kept (c :: up) = true) : reach kept up = true := by
  rw [reach, Bool.and_eq_true] at h
  exact h.2

/-- What a crash leaves under a name. -/
theorem survivor_content (d : Disk) (kept : Folder → Bool) (listing : Folder → Listing)
    (data : Nat → Bytes) (p : Path) : (d.survivor kept listing data).content p =
      if reach kept p.folder then (listing p.folder p.name).map data else none := by
  unfold content lookup
  cases there : reach kept p.folder <;> simp [survivor, Directory.now, Directory.after, there]

namespace Becomes
variable {watched : Path → Prop} {target : Path} {new : Bytes}

instance : IsPreorder Disk (Becomes watched target new) where
  refl d := ⟨fun p _ => Or.inl rfl, fun e' crash => ⟨e', crash, fun p _ => Or.inl rfl⟩⟩
  trans d₁ d₂ d₃ h h' := by
    refine ⟨fun p seen => ?_, fun e' crash => ?_⟩
    · rcases h'.now p seen with same | new
      · rw [same]
        exact h.now p seen
      · exact Or.inr new
    · obtain ⟨d', crash', same'⟩ := h'.crash e' crash
      obtain ⟨d'', crash'', same''⟩ := h.crash d' crash'
      refine ⟨d'', crash'', fun p seen => ?_⟩
      rcases same' p seen with same | new
      · rw [same]
        exact same'' p seen
      · exact Or.inr new

/-- A listing shows the watched names what another one did, except for new bytes at the target. -/
def Follows (watched : Path → Prop) (target : Path) (new : Bytes) (d e : Disk) (f : Folder)
    (l l₀ : Listing) : Prop :=
  ∀ p, watched p → p.folder = f →
    (l p.name = l₀ p.name ∧ ∀ i, l₀ p.name = some i → e.file i = d.file i) ∨
      p = target ∧ ∃ i, l p.name = some i ∧ e.file i = ⟨new, true⟩

theorem of_worlds (made : e.made = d.made) (lasting : ∀ f, d.lasting f = true → e.lasting f = true)
    (now : ∀ f, Follows watched target new d e f (e.directory f).now (d.directory f).now)
    (worlds : ∀ f l, (e.directory f).World l → ∃ l₀, (d.directory f).World l₀ ∧
      Follows watched target new d e f l l₀) : Becomes watched target new d e := by
  refine ⟨fun p hp => ?_, ?_⟩
  · unfold content lookup
    rw [made]
    cases d.made p.folder with
    | false => exact Or.inl rfl
    | true =>
      rcases now p.folder p hp rfl with ⟨same, files⟩ | ⟨here, i, there, file⟩
      · left
        rw [if_pos rfl, if_pos rfl, same]
        cases old : (d.directory p.folder).now p.name with
        | none => rfl
        | some i => simp [files i old]
      · right
        refine ⟨here, ?_⟩
        rw [if_pos rfl, there]
        simp [file]
  · rintro _ ⟨kept, listing, data, survives, rfl⟩
    choose before old follows using fun f => worlds f (listing f) (survives.world f)
    refine ⟨_, ⟨kept, before, fun i => if e.file i = d.file i then data i else (d.file i).data,
      ⟨fun f h => survives.lasting f (lasting f h), fun f h => made ▸ survives.made f h, old,
        fun i synced => ?_⟩, rfl⟩, fun p hp => ?_⟩
    · by_cases same : e.file i = d.file i
      · rw [if_pos same, ← same]
        exact survives.synced i (same ▸ synced)
      · rw [if_neg same]
    · rw [survivor_content, survivor_content]
      cases reach kept p.folder with
      | false => exact Or.inl rfl
      | true =>
        rcases follows p.folder p hp rfl with ⟨same, files⟩ | ⟨here, i, there, file⟩
        · left
          rw [if_pos rfl, if_pos rfl, same]
          cases old : before p.folder p.name with
          | none => rfl
          | some i => simp [files i old]
        · right
          refine ⟨here, ?_⟩
          have whole : data i = new := by
            rw [survives.synced i (by rw [file]), file]
          rw [if_pos rfl, there, Option.map_some, whole]

/-- Files that no watched name refers to may change. -/
theorem of_files (same : e.directory = d.directory) (made : e.made = d.made)
    (lasting : e.lasting = d.lasting)
    (files : ∀ p l i, watched p → (d.directory p.folder).World l → l p.name = some i →
      e.file i = d.file i) : Becomes watched target new d e := by
  have follows : ∀ f l, (d.directory f).World l → Follows watched target new d e f l l := by
    rintro f l world p hp rfl
    exact Or.inl ⟨rfl, fun i there => files p l i hp world there⟩
  refine of_worlds made (fun f h => lasting ▸ h) (fun f => ?_) fun f l world => ?_
  · rw [same]
    exact follows f _ (Directory.world_now _)
  · rw [same] at world
    exact ⟨l, world, follows f l world⟩

theorem syncFolder (d : Disk) (f : Folder) : Becomes watched target new d (d.syncFolder f) := by
  have follows : ∀ g l, Follows watched target new d (d.syncFolder f) g l l :=
    fun g l p _ _ => Or.inl ⟨rfl, fun i _ => rfl⟩
  refine of_worlds rfl (fun g h => ?_) (fun g => ?_) fun g l world => ?_
  · simp [Disk.syncFolder, h]
  · have same : ((d.syncFolder f).directory g).now = (d.directory g).now := by
      by_cases here : g = f
      · simp [Disk.syncFolder, setDirectory, here]
      · simp [Disk.syncFolder, setDirectory, here]
    rw [same]
    exact follows g _
  · by_cases here : g = f
    · subst here
      simp only [Disk.syncFolder, setDirectory, Function.update_self, Directory.world_sync] at world
      exact ⟨_, Directory.world_now _, world ▸ follows g _⟩
    · simp only [Disk.syncFolder, setDirectory, Function.update_of_ne here] at world
      exact ⟨l, world, follows g l⟩

/-- One change of one directory. -/
theorem record {u : Update} {f : Folder}
    (shows : ∀ l, Follows watched target new d d f (u.apply l) l) :
    Becomes watched target new d (d.record f u) := by
  have keeps : ∀ g l, Follows watched target new d d g l l :=
    fun g l p _ _ => Or.inl ⟨rfl, fun i _ => rfl⟩
  refine of_worlds rfl (fun g h => h) (fun g => ?_) fun g l world => ?_
  · by_cases here : g = f
    · subst here
      simp only [Disk.record, setDirectory, Function.update_self, Directory.record_now]
      exact shows _
    · simp only [Disk.record, setDirectory, Function.update_of_ne here]
      exact keeps g _
  · by_cases here : g = f
    · subst here
      simp only [Disk.record, setDirectory, Function.update_self, Directory.world_record] at world
      rcases world with old | ⟨l₀, old, rfl⟩
      · exact ⟨l, old, keeps g l⟩
      · exact ⟨l₀, old, shows l₀⟩
    · simp only [Disk.record, setDirectory, Function.update_of_ne here] at world
      exact ⟨l, world, keeps g l⟩

/-- A name that is not watched comes or goes. -/
theorem unlink (hidden : ¬ watched p) :
    Becomes watched target new d (d.record p.folder (.unlink p.name)) := by
  refine record fun l q hq same => Or.inl ⟨?_, fun i _ => rfl⟩
  have other : q.name ≠ p.name := by
    intro name
    obtain ⟨folder, name'⟩ := q
    subst same name
    exact hidden hq
  simp [Update.apply, other]

theorem link (hidden : ¬ watched p) :
    Becomes watched target new d (d.record p.folder (.link p.name i)) := by
  refine record fun l q hq same => Or.inl ⟨?_, fun i _ => rfl⟩
  have other : q.name ≠ p.name := by
    intro name
    obtain ⟨folder, name'⟩ := q
    subst same name
    exact hidden hq
  simp [Update.apply, other]

/-- A whole file is moved to the target. -/
theorem rename {old : String} (hidden : ¬ watched ⟨target.folder, old⟩)
    (whole : d.file i = ⟨new, true⟩) :
    Becomes watched target new d (d.record target.folder (.rename old target.name i)) := by
  refine record fun l q hq same => ?_
  have other : q.name ≠ old := by
    intro name
    obtain ⟨folder, name'⟩ := q
    subst same name
    exact hidden hq
  by_cases there : l old = some i
  · by_cases here : q.name = target.name
    · right
      refine ⟨?_, i, ?_, whole⟩
      · obtain ⟨folder, name⟩ := q
        subst same here
        rfl
      · simp [Update.apply, there, here]
    · left
      exact ⟨by simp [Update.apply, there, here, other], fun i _ => rfl⟩
  · left
    exact ⟨by simp [Update.apply, there], fun i _ => rfl⟩

theorem setFile {x : File}
    (hidden : ∀ p l, watched p → (d.directory p.folder).World l → l p.name ≠ some i) :
    Becomes watched target new d (d.setFile i x) := by
  refine of_files rfl rfl rfl fun p l j hp world there => ?_
  have other : j ≠ i := by
    rintro rfl
    exact hidden p l hp world there
  simp [Disk.setFile, other]

theorem create {staging : String → Prop} (sound : d.Sound staging) (hidden : ¬ watched p) :
    Becomes watched target new d (d.create p) := by
  have file : Becomes watched target new d (d.setFile d.next ⟨[], false⟩) := by
    refine setFile fun q l _ world there => ?_
    exact Nat.lt_irrefl _ (sound.bounded q.folder l q.name d.next world there)
  have linked : Becomes watched target new (d.setFile d.next ⟨[], false⟩)
      ((d.setFile d.next ⟨[], false⟩).record p.folder (.link p.name d.next)) := link hidden
  have counted : Becomes watched target new
      ((d.setFile d.next ⟨[], false⟩).record p.folder (.link p.name d.next)) (d.create p) :=
    of_files rfl rfl rfl fun _ _ _ _ _ _ => rfl
  exact IsTrans.trans _ _ _ file (IsTrans.trans _ _ _ linked counted)

/-- A new directory is empty. -/
theorem mkdir {staging : String → Prop} (sound : d.Sound staging) (absent : d.made f = false) :
    Becomes watched target new d (d.mkdir f) := by
  have below : ∀ {g}, d.made g = true → ∀ h, h <:+ g → d.made h = true := by
    intro g there
    induction g with
    | nil =>
      intro h suffix
      rw [List.suffix_nil.mp suffix]
      exact there
    | cons c up ih =>
      intro h suffix
      rcases List.suffix_cons_iff.mp suffix with rfl | suffix
      · exact there
      · exact ih (sound.parents c up there) h suffix
  refine ⟨fun p _ => Or.inl ?_, ?_⟩
  · by_cases here : p.folder = f
    · simp [content, lookup, Disk.mkdir, setDirectory, here, absent, Directory.now, Directory.after,
        Directory.empty]
    · simp [content, lookup, Disk.mkdir, setDirectory, here]
  · rintro _ ⟨kept, listing, data, survives, rfl⟩
    refine ⟨_, ⟨fun g => kept g && d.made g, Function.update listing f (d.directory f).now, data,
      ⟨fun g lasts => ?_, fun g h => ?_, fun g => ?_, survives.synced⟩, rfl⟩, fun p _ => Or.inl ?_⟩
    · have made := sound.lasts g lasts
      have other : g ≠ f := by
        rintro rfl
        rw [absent] at made
        cases made
      have still : (d.mkdir f).lasting g = true := by simpa [Disk.mkdir, other] using lasts
      rw [survives.lasting g still, made]
      rfl
    · exact (Bool.and_eq_true_iff.mp h).2
    · by_cases here : g = f
      · subst here
        rw [Function.update_self]
        exact Directory.world_now _
      · have there := survives.world g
        rw [Function.update_of_ne here]
        simpa [Disk.mkdir, setDirectory, here] using there
    · rw [survivor_content, survivor_content]
      by_cases here : p.folder = f
      · have nothing := survives.world f
        simp only [Disk.mkdir, setDirectory, Function.update_self, Directory.empty,
          Directory.world_settled] at nothing
        have gone : reach (fun g => kept g && d.made g) f = false := by
          by_contra there
          rcases reach_made ((Bool.not_eq_false _).mp there) with rfl | made
          · rw [sound.root] at absent
            cases absent
          · rw [absent, Bool.and_false] at made
            cases made
        rw [here, gone, nothing]
        simp
      · have same : reach kept p.folder = reach (fun g => kept g && d.made g) p.folder := by
          cases there : reach kept p.folder with
          | false =>
            by_contra other
            have fewer := reach_mono (fun g h => (Bool.and_eq_true_iff.mp h).1)
              ((Bool.not_eq_false _).mp (Ne.symm other))
            rw [there] at fewer
            cases fewer
          | true =>
            have made : d.made p.folder = true := by
              rcases reach_made there with root | kept'
              · rw [root]
                exact sound.root
              · simpa [Disk.mkdir, setDirectory, here] using survives.made _ kept'
            rw [← there]
            refine reach_congr fun g suffix _ => ?_
            rw [below made g suffix, Bool.and_true]
        rw [same, Function.update_of_ne here]

end Becomes

theorem record_world {u : Update} {l : Listing} : ((d.record f u).directory g).World l ↔
    (d.directory g).World l ∨ g = f ∧ ∃ l₀, (d.directory f).World l₀ ∧ l = u.apply l₀ := by
  by_cases here : g = f
  · subst here
    simp [Disk.record, setDirectory, Directory.world_record]
  · simp [Disk.record, setDirectory, here]

theorem record_now {u : Update} : ((d.record f u).directory g).now =
    if g = f then u.apply (d.directory f).now else (d.directory g).now := by
  by_cases here : g = f
  · subst here
    simp [Disk.record, setDirectory]
  · simp [Disk.record, setDirectory, here]

namespace Sound
variable {staging : String → Prop}

/-- A change of a directory that brings in no file of another one. -/
theorem record {u : Update} (sound : d.Sound staging)
    (old : ∀ l a i, u.apply l a = some i → ∃ b, l b = some i)
    (once : ∀ l a b i, (d.directory f).World l → u.apply l a = some i →
      u.apply l b = some i → a = b)
    (apart : ∀ a i, staging a → u.apply (d.directory f).now a = some i →
      ∀ l b, (d.directory f).World l → l b = some i ∨ u.apply l b = some i → staging b) :
    (d.record f u).Sound staging := by
  have before : ∀ {g l a i}, ((d.record f u).directory g).World l → l a = some i →
      ∃ l₀ b, (d.directory g).World l₀ ∧ l₀ b = some i := by
    intro g l a i world there
    rcases record_world.mp world with world₀ | ⟨rfl, l₀, world₀, rfl⟩
    · exact ⟨l, a, world₀, there⟩
    · obtain ⟨b, was⟩ := old l₀ a i there
      exact ⟨l₀, b, world₀, was⟩
  refine ⟨sound.root, sound.parents, sound.lasts, fun g l a i world there => ?_,
    fun g l a b i world ha hb => ?_, fun g g' l l' a b i world world' ha hb => ?_,
    fun g l a b i hidden now world hb => ?_⟩
  · obtain ⟨l₀, b, world, was⟩ := before world there
    exact sound.bounded g l₀ b i world was
  · rcases record_world.mp world with world₀ | ⟨rfl, l₀, world₀, rfl⟩
    · exact sound.single g l a b i world₀ ha hb
    · exact once l₀ a b i world₀ ha hb
  · obtain ⟨l₀, a', world, wasA⟩ := before world ha
    obtain ⟨l₀', b', world', wasB⟩ := before world' hb
    exact sound.home g g' l₀ l₀' a' b' i world world' wasA wasB
  · rw [record_now] at now
    by_cases here : g = f
    · subst here
      rw [if_pos rfl] at now
      rcases record_world.mp world with world₀ | ⟨-, l₀, world₀, rfl⟩
      · exact apart a i hidden now l b world₀ (Or.inl hb)
      · exact apart a i hidden now l₀ b world₀ (Or.inr hb)
    · rw [if_neg here] at now
      rcases record_world.mp world with world | ⟨same, -⟩
      · exact sound.apart g l a b i hidden now world hb
      · exact absurd same here

theorem unlink (sound : d.Sound staging) (name : String) :
    (d.record f (.unlink name)).Sound staging := by
  have old : ∀ l a i, (Update.unlink name).apply l a = some i → l a = some i := by
    intro l a i there
    by_cases here : a = name
    · simp [Update.apply, here] at there
    · simpa [Update.apply, here] using there
  refine sound.record (fun l a i there => ⟨a, old l a i there⟩)
    (fun l a b i world ha hb => sound.single f l a b i world (old l a i ha) (old l b i hb))
    fun a i hidden now l b world hb => ?_
  rcases hb with hb | hb
  · exact sound.apart f l a b i hidden (old _ a i now) world hb
  · exact sound.apart f l a b i hidden (old _ a i now) world (old l b i hb)

theorem rename {a₀ b₀ : String} (sound : d.Sound staging) (hidden₀ : staging a₀)
    (there₀ : (d.directory f).now a₀ = some j) :
    (d.record f (.rename a₀ b₀ j)).Sound staging := by
  have cases' : ∀ {l a i}, (Update.rename a₀ b₀ j).apply l a = some i →
      l a₀ = some j ∧ a = b₀ ∧ i = j ∨ (l a₀ = some j → a ≠ a₀) ∧ l a = some i := by
    intro l a i there
    by_cases moves : l a₀ = some j
    · by_cases new : a = b₀
      · left
        simp only [Update.apply, moves, if_true, new, Function.update_self,
          Option.some.injEq] at there
        exact ⟨moves, new, there.symm⟩
      · right
        by_cases old : a = a₀
        · subst old
          simp [Update.apply, moves, new] at there
        · exact ⟨fun _ => old, by simpa [Update.apply, moves, new, old] using there⟩
    · right
      exact ⟨fun h => absurd h moves, by simpa [Update.apply, moves] using there⟩
  refine sound.record (fun l a i there => ?_) (fun l a b i world ha hb => ?_)
    fun a i hidden now l b world hb => ?_
  · rcases cases' there with ⟨moves, -, rfl⟩ | ⟨-, old⟩
    · exact ⟨a₀, moves⟩
    · exact ⟨a, old⟩
  · rcases cases' ha with ⟨moves, rfl, rfl⟩ | ⟨otherA, oldA⟩
    · rcases cases' hb with ⟨-, rfl, -⟩ | ⟨otherB, oldB⟩
      · rfl
      · exact absurd (sound.single f l b a₀ i world oldB moves) (otherB moves)
    · rcases cases' hb with ⟨moves, rfl, rfl⟩ | ⟨-, oldB⟩
      · exact absurd (sound.single f l a a₀ i world oldA moves) (otherA moves)
      · exact sound.single f l a b i world oldA oldB
  · rcases cases' now with ⟨-, rfl, rfl⟩ | ⟨other, was⟩
    · rcases hb with hb | hb
      · exact sound.apart f l a₀ b i hidden₀ there₀ world hb
      · rcases cases' hb with ⟨-, rfl, -⟩ | ⟨-, old⟩
        · exact hidden
        · exact sound.apart f l a₀ b i hidden₀ there₀ world old
    · rcases hb with hb | hb
      · exact sound.apart f l a b i hidden was world hb
      · rcases cases' hb with ⟨-, -, rfl⟩ | ⟨-, old⟩
        · exact absurd (sound.single f _ a a₀ i (Directory.world_now _) was there₀) (other there₀)
        · exact sound.apart f l a b i hidden was world old

theorem setFile (sound : d.Sound staging) (i : Nat) (x : File) : (d.setFile i x).Sound staging :=
  ⟨sound.root, sound.parents, sound.lasts, sound.bounded, sound.single, sound.home, sound.apart⟩

/-- Only the new name refers to the new file. -/
theorem create_world {l : Listing} {a : String}
    (world : ((d.create p).directory g).World l) (there : l a = some i) :
    (∃ l₀, (d.directory g).World l₀ ∧ l₀ a = some i ∧ ∀ b i', l b = some i' → i' ≠ d.next →
      l₀ b = some i') ∨ g = p.folder ∧ a = p.name ∧ i = d.next := by
  rcases (record_world (d := d.setFile d.next ⟨[], false⟩)).mp world with world₀ | ⟨rfl,
    l₀, world₀, rfl⟩
  · exact Or.inl ⟨l, world₀, there, fun b i' h _ => h⟩
  · have others : ∀ b, b ≠ p.name → (Update.link p.name d.next).apply l₀ b = l₀ b :=
      fun b other => by
      simp [Update.apply, other]
    by_cases here : a = p.name
    · subst here
      exact Or.inr ⟨rfl, rfl, by simpa [Update.apply, eq_comm] using there⟩
    · refine Or.inl ⟨l₀, world₀, (others a here).symm.trans there, fun b i' hb other => ?_⟩
      by_cases new : b = p.name
      · subst new
        have same : i' = d.next := by simpa [Update.apply, eq_comm] using hb
        exact absurd same other
      · exact (others b new).symm.trans hb

theorem only_created (sound : d.Sound staging) {l : Listing} {a : String}
    (world : ((d.create p).directory g).World l) (there : l a = some d.next) :
    g = p.folder ∧ a = p.name := by
  rcases create_world world there with ⟨l₀, world, was, -⟩ | ⟨folder, name, -⟩
  · exact absurd (sound.bounded g l₀ a d.next world was) (Nat.lt_irrefl _)
  · exact ⟨folder, name⟩

theorem create (sound : d.Sound staging) (p : Path) : (d.create p).Sound staging := by
  have older : ∀ {g l a i}, ((d.create p).directory g).World l → l a = some i → i ≠ d.next →
      ∃ l₀, (d.directory g).World l₀ ∧ l₀ a = some i ∧
        ∀ b i', l b = some i' → i' ≠ d.next → l₀ b = some i' := by
    intro g l a i world there other
    rcases create_world world there with old | ⟨-, -, new⟩
    · exact old
    · exact absurd new other
  have now : ∀ {g a i}, ((d.create p).directory g).now a = some i → i ≠ d.next →
      (d.directory g).now a = some i := by
    intro g a i there other
    have listed : ((d.create p).directory g).now = if g = p.folder then
        (Update.link p.name d.next).apply (d.directory p.folder).now else (d.directory g).now :=
      record_now (d := d.setFile d.next ⟨[], false⟩)
    rw [listed] at there
    by_cases here : g = p.folder
    · subst here
      rw [if_pos rfl] at there
      by_cases name : a = p.name
      · subst name
        exact absurd (by simpa [Update.apply, eq_comm] using there) other
      · simpa [Update.apply, name] using there
    · rw [if_neg here] at there
      exact there
  refine ⟨sound.root, sound.parents, sound.lasts, fun g l a i world there => ?_,
    fun g l a b i world ha hb => ?_, fun g g' l l' a b i world world' ha hb => ?_,
    fun g l a b i hidden there world hb => ?_⟩
  · rcases create_world world there with ⟨l₀, world, was, -⟩ | ⟨-, -, rfl⟩
    · exact Nat.lt_succ_of_lt (sound.bounded g l₀ a i world was)
    · exact Nat.lt_succ_self _
  · by_cases new : i = d.next
    · subst new
      exact (sound.only_created world ha).2.trans (sound.only_created world hb).2.symm
    · obtain ⟨l₀, world, was, others⟩ := older world ha new
      exact sound.single g l₀ a b i world was (others b i hb new)
  · by_cases new : i = d.next
    · subst new
      exact (sound.only_created world ha).1.trans (sound.only_created world' hb).1.symm
    · obtain ⟨l₀, world, was, -⟩ := older world ha new
      obtain ⟨l₀', world', was', -⟩ := older world' hb new
      exact sound.home g g' l₀ l₀' a b i world world' was was'
  · by_cases new : i = d.next
    · subst new
      rw [(sound.only_created world hb).2, ← (sound.only_created (Directory.world_now _) there).2]
      exact hidden
    · obtain ⟨l₀, world, was, -⟩ := older world hb new
      exact sound.apart g l₀ a b i hidden (now there new) world was

/-- Where every world was a world before. -/
theorem of_worlds (sound : d.Sound staging) (root : e.made [] = true)
    (parents : ∀ c up, e.made (c :: up) = true → e.made up = true)
    (lasts : ∀ f, e.lasting f = true → e.made f = true) (next : e.next = d.next)
    (worlds : ∀ f l a i, (e.directory f).World l → l a = some i → (d.directory f).World l)
    (now : ∀ f a i, (e.directory f).now a = some i → (d.directory f).now a = some i ∨
      ∀ l, (e.directory f).World l → l = (e.directory f).now) : e.Sound staging := by
  refine ⟨root, parents, lasts, fun f l a i world there => ?_, fun f l a b i world ha hb => ?_,
    fun f g l l' a b i world world' ha hb => ?_, fun f l a b i hidden there world hb => ?_⟩
  · rw [next]
    exact sound.bounded f l a i (worlds f l a i world there) there
  · exact sound.single f l a b i (worlds f l a i world ha) ha hb
  · exact sound.home f g l l' a b i (worlds f l a i world ha) (worlds g l' b i world' hb) ha hb
  · rcases now f a i there with was | only
    · exact sound.apart f l a b i hidden was (worlds f l b i world hb) hb
    · rw [only l world] at hb
      have here := worlds f _ a i (Directory.world_now _) there
      rw [← sound.single f _ a b i here there hb]
      exact hidden

theorem syncFolder (sound : d.Sound staging) (f : Folder) : (d.syncFolder f).Sound staging := by
  have same : ∀ g, ((d.syncFolder f).directory g).now = (d.directory g).now := by
    intro g
    by_cases here : g = f <;> simp [Disk.syncFolder, setDirectory, here]
  refine sound.of_worlds sound.root sound.parents (fun g h => ?_) rfl (fun g l a i world _ => ?_)
    fun g a i there => Or.inl (same g ▸ there)
  · have h : (d.lasting g || (d.made g && g != [] && g.tail == f)) = true := h
    rw [Bool.or_eq_true, Bool.and_eq_true, Bool.and_eq_true] at h
    rcases h with lasts | ⟨⟨made, -⟩, -⟩
    · exact sound.lasts g lasts
    · exact made
  · by_cases here : g = f
    · subst here
      simp only [Disk.syncFolder, setDirectory, Function.update_self, Directory.world_sync] at world
      rw [world]
      exact Directory.world_now _
    · simpa [Disk.syncFolder, setDirectory, here] using world

theorem mkdir {c : String} {up : Folder} (sound : d.Sound staging) (above : d.made up = true) :
    (d.mkdir (c :: up)).Sound staging := by
  have made : ∀ g, d.made g = true → (d.mkdir (c :: up)).made g = true := by
    intro g h
    by_cases here : g = c :: up <;> simp [Disk.mkdir, here, h]
  refine sound.of_worlds (made _ sound.root) (fun c' up' h => ?_) (fun g h => ?_) rfl
    (fun g l a i world there => ?_) fun g a i there => ?_
  · by_cases here : c' :: up' = c :: up
    · obtain ⟨-, rfl⟩ := List.cons.inj here
      exact made _ above
    · exact made _ (sound.parents c' up' (by simpa [Disk.mkdir, here] using h))
  · by_cases here : g = c :: up
    · simp [Disk.mkdir, here] at h
    · exact made _ (sound.lasts g (by simpa [Disk.mkdir, here] using h))
  · by_cases here : g = c :: up
    · subst here
      simp only [Disk.mkdir, setDirectory, Function.update_self, Directory.empty,
        Directory.world_settled] at world
      rw [world] at there
      cases there
    · simpa [Disk.mkdir, setDirectory, here] using world
  · by_cases here : g = c :: up
    · subst here
      simp [Disk.mkdir, setDirectory, Directory.empty, Directory.now, Directory.after] at there
    · exact Or.inl (by simpa [Disk.mkdir, setDirectory, here] using there)

theorem crash (sound : d.Sound staging) (h : d.Crash e) : e.Sound staging := by
  obtain ⟨kept, listing, data, survives, rfl⟩ := h
  have only : ∀ f l, ((d.survivor kept listing data).directory f).World l →
      l = ((d.survivor kept listing data).directory f).now := fun f l => Directory.world_settled.mp
  refine sound.of_worlds rfl (fun c up => reach_parent) (fun f h =>
    h) rfl (fun f l a i world there => ?_)
    fun f a i _ => Or.inr (only f)
  have is : l = if reach kept f then listing f else fun _ => none := only f l world
  by_cases there' : reach kept f = true
  · rw [is, if_pos there']
    exact survives.world f
  · rw [is, if_neg there'] at there
    cases there

end Sound

theorem reach_reach (kept : Folder → Bool) (f : Folder) : reach (reach kept) f = reach kept f := by
  induction f with
  | nil => rfl
  | cons c up ih =>
    rw [reach, ih]
    cases below : reach kept up with
    | false => rw [reach, below, Bool.and_false, Bool.and_false]
    | true => rw [Bool.and_true]

/-- What a crash left is all on disk, so that another one leaves the same. -/
theorem Crash.settled (h : d.Crash e) (again : e.Crash e') (p : Path) :
    e'.content p = e.content p := by
  obtain ⟨kept, listing, data, -, rfl⟩ := h
  obtain ⟨kept', listing', data', survives, rfl⟩ := again
  obtain rfl : kept' = reach kept := by
    funext f
    cases there : kept' f with
    | true => exact (survives.made f there).symm
    | false =>
      cases lasts : reach kept f with
      | false => rfl
      | true => exact absurd (survives.lasting f lasts) (by rw [there]; nofun)
  have same : data' = data := funext fun i => survives.synced i rfl
  have listed := Directory.world_settled.mp (survives.world p.folder)
  rw [survivor_content, survivor_content, reach_reach, same]
  cases there : reach kept p.folder with
  | false => rfl
  | true => rw [if_pos rfl, if_pos rfl, listed, if_pos there]

theorem Rooted.crash (h : d.Rooted f) (crash : d.Crash e) : e.Rooted f := by
  obtain ⟨kept, listing, data, survives, rfl⟩ := crash
  exact (reach_reach kept f).trans (reach_mono survives.lasting h)

theorem Rooted.mono (h : d.Rooted f) (lasting : ∀ g, d.lasting g = true → e.lasting g = true) :
    e.Rooted f :=
  reach_mono lasting h

/-- What is settled: every crash leaves the bytes. -/
theorem content_of_settled {listing : Listing} (rooted : d.Rooted p.folder)
    (made : d.made p.folder = true)
    (settled : d.directory p.folder = ⟨listing, []⟩) (there : listing p.name = some i)
    (synced : (d.file i).synced = true) : d.content p = some (d.file i).data ∧
      ∀ e, d.Crash e → e.content p = some (d.file i).data := by
  refine ⟨by simp [content, lookup, made, settled, Directory.now, Directory.after, there], ?_⟩
  rintro _ ⟨kept, worlds, data, survives, rfl⟩
  have world := survives.world p.folder
  rw [settled, Directory.world_settled] at world
  rw [survivor_content, if_pos (reach_mono survives.lasting rooted), world, there, Option.map_some,
    survives.synced i synced]

/-- What is not rooted can be lost. -/
theorem exists_loss {staging : String → Prop} (sound : d.Sound staging)
    (loose : ¬ d.Rooted p.folder) :
    ∃ e, d.Crash e ∧ e.content p = none := by
  refine ⟨_, ⟨d.lasting, fun f => (d.directory f).now, fun i => (d.file i).data, ⟨fun _ h => h,
    sound.lasts, fun f => Directory.world_now _, fun _ _ => rfl⟩, rfl⟩, ?_⟩
  have gone : reach d.lasting p.folder = false := Bool.not_eq_true _ |>.mp loose
  rw [survivor_content, gone]
  rfl

end Disk
end Storage
