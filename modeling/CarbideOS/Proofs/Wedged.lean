import CarbideOS.Proofs.Confirmed

namespace CarbideOS.Installer
open AppWindow Interruptible

/-- Keys alone reach a restart or a power off. -/
def ReachesPower (t : Texts) (s : AppWindow) : Prop :=
  ∃ (keys : List String) (p : Power), (run t (keys.map .key) s).power = s.power ++ [p]

/-- A write is going on, or keys reach a restart or a power off, or a confirmed erase is
about to start its write. -/
def Alive (t : Texts) (s : AppWindow) : Prop :=
  s.writing = true ∨ ReachesPower t s ∨
    s.committed = true ∧ s.phase = .confirm ∧ s.beginInstall.writing = true

/-- A confirmed erase leaves the confirm screen when the commit timer triggers. -/
def Answered (s : AppWindow) : Prop :=
  s.committed = true → s.phase = .confirm → s.beginInstall.phase ≠ .confirm

/-- The host would start a write of the disk that is selected. -/
def Ready (s : AppWindow) : Prop :=
  s.image = true ∧ (s.disks[s.selected]?).any Disk.eligible = true

/-- A confirmed erase that the host does not answer. -/
structure Wedged (s : AppWindow) : Prop where
  phase : s.phase = .confirm
  committed : s.committed = true
  idle : ¬ Ready s

/-- The key is the last of the code on the screen. -/
structure Completes (t : Texts) (text : String) (s : AppWindow) : Prop where
  phase : s.phase = .confirm
  open_ : s.committed = false
  letter : text ≠ Key.escape ∧ text ≠ Key.backspace ∧
    (t.isFloat text = true ∨ t.toUppercase text ≠ t.toLowercase text)
  code : ∃ row, s.rows[s.selected]? = some row ∧
    row.codeChars[s.typed]? = some (t.toUppercase text) ∧ row.codeChars.length = s.typed + 1

/-- The event completes the code of a disk while there is nothing to write on it, or
clicks on a disk that cannot be erased while another is about to be. -/
def Slips (t : Texts) : Event → AppWindow → Prop
  | .key text, s => Completes t text s ∧ ¬ Ready s
  | .click index, s => s.phase = .confirm ∧ s.committed = true ∧ s.pickerVisible = true ∧
      (s.rows[index]?).any DiskInfo.eligible = false
  | _, _ => False

section
variable {t : Texts} {s : AppWindow} {e : Event} {text : String}

/-- What holds of the window at all times. A write outlasts the picker's fading out, as
the commit timer does. -/
structure Sound (s : AppWindow) : Prop where
  synced : Synced s
  writing : s.writing = true ↔ s.phase = .install
  faded : s.phase = .install → s.fade = 0
  fade : s.fade ≤ normal
  hold : s.committed = true → s.phase = .confirm → s.fade ≤ s.hold

theorem start_sound (image : Bool) (attached : List Disk) : Sound (start image attached) := by
  have phase : (start image attached).phase ≠ .install := by cases image <;> exact Phase.noConfusion
  have fade : (start image attached).fade = 0 := by cases image <;> rfl
  have writing : (start image attached).writing = false := by cases image <;> rfl
  refine ⟨start_synced image attached, ?_, fun _ => fade, ?_, fun _ _ => ?_⟩
  · rw [writing]
    exact ⟨fun no => absurd no (by decide), fun no => absurd no phase⟩
  · rw [fade]
    exact Nat.zero_le _
  · rw [fade]
    exact Nat.zero_le _

/-- Whether a key commits. -/
theorem typeKey_committed_iff (open_ : s.committed = false) (confirm : s.phase = .confirm)
    (stays : text ≠ Key.escape) :
    (s.typeKey t text).committed = true ↔ Completes t text s := by
  constructor
  · intro commits
    unfold typeKey at commits
    split at commits
    · rw [open_] at commits
      cases commits
    · rename_i letter
      split at commits
      · rw [open_] at commits
        cases commits
      · rename_i counts
        refine ⟨confirm, open_, ⟨stays, letter, ?_⟩, ?_⟩
        · simpa [or_iff_not_imp_left] using counts
        · cases shown : s.rows[s.selected]? with
          | none => simp [shown, open_] at commits
          | some row =>
            simp only [shown, Option.map_some, Option.getD_some] at commits
            split at commits
            · rename_i here
              have there : s.typed < row.codeChars.length := (List.getElem?_eq_some_iff.mp here).1
              split at commits
              · exact ⟨row, rfl, here, by omega⟩
              · rw [open_] at commits
                cases commits
            · rw [open_] at commits
              cases commits
  · rintro ⟨-, -, ⟨-, letter, counts⟩, row, shown, here, whole⟩
    have counts : ¬ (!t.isFloat text && t.toUppercase text == t.toLowercase text) = true := by
      simpa [or_iff_not_imp_left] using counts
    rw [typeKey, if_neg letter, if_neg counts]
    simp only [shown, Option.map_some, Option.getD_some]
    rw [if_pos here, if_pos (Nat.le_of_eq whole)]
    rfl

/-- The confirm screen never has a write behind it. -/
theorem Sound.idle (h : Sound s) (confirm : s.phase = .confirm) : s.writing = false := by
  cases writing : s.writing with
  | false => rfl
  | true => exact absurd (confirm.symm.trans (h.writing.mp writing)) (by decide)

theorem setPhase_fade_le {p : Phase} (h : s.fade ≤ normal) : (s.setPhase p).fade ≤ normal := by
  rw [setPhase]
  split
  · exact Nat.le_refl _
  · exact h

theorem pick_sound {index : Nat} (h : Sound s) (visible : s.pickerVisible = true) :
    Sound (s.pick index) := by
  -- While a write goes on nothing is left of the picker.
  have installing : s.phase ≠ .install := by
    intro install
    simp [pickerVisible, install, h.faded install] at visible
  have quiet : s.writing = false := by
    cases writing : s.writing with
    | false => rfl
    | true => exact absurd (h.writing.mp writing) installing
  unfold pick
  dsimp only
  split
  · refine ⟨h.synced, ?_, fun no => ?_, ?_, fun no => ?_⟩
    · change s.writing = true ↔ Phase.confirm = .install
      rw [quiet]
      decide
    · cases no
    · exact setPhase_fade_le h.fade
    · cases no
  · exact ⟨h.synced, h.writing, h.faded, h.fade, h.hold⟩

theorem Sound.timeless {s' : AppWindow} (h : Sound s) (synced : Synced s')
    (phase : s'.phase = s.phase) (writing : s'.writing = s.writing) (fade : s'.fade = s.fade)
    (hold : s'.committed = true → s'.phase = .confirm → s.fade ≤ s'.hold) : Sound s' := by
  refine ⟨synced, ?_, ?_, ?_, ?_⟩
  · rw [writing, phase]
    exact h.writing
  · rw [phase, fade]
    exact h.faded
  · rw [fade]
    exact h.fade
  · rw [fade]
    exact hold

theorem Sound.setPhase {p : Phase} (h : Sound s) (now : s.phase ≠ .install) (other : p ≠ .install)
    (hold : s.committed = true → p ≠ .confirm) : Sound (s.setPhase p) := by
  refine ⟨h.synced, ?_, fun no => absurd no other, setPhase_fade_le h.fade, fun c no => ?_⟩
  · exact ⟨fun w => absurd (h.writing.mp w) now, fun no => absurd no other⟩
  · exact absurd no (hold c)

theorem Sound.enterConfirm (h : Sound s) (now : s.phase ≠ .install) : Sound s.enterConfirm := by
  have fresh : Sound { s with typed := 0, committed := false } :=
    h.timeless h.synced rfl rfl rfl fun no => by cases no
  exact fresh.setPhase now (by decide) fun no => by cases no

theorem moveSelection_sound {step : Int} (h : Sound s) : Sound (s.moveSelection step) := by
  unfold moveSelection
  split
  · exact h
  · exact h.timeless h.synced rfl rfl rfl h.hold

theorem typeKey_sound (h : Sound s) : Sound (s.typeKey t text) := by
  rcases typeKey_cases t text s with e | e | e | ⟨row, -, -, ⟨-, e⟩ | ⟨-, e⟩⟩
  · rw [e]
    exact h
  · rw [e]
    exact h.timeless h.synced rfl rfl rfl h.hold
  · rw [e]
    exact h.timeless h.synced rfl rfl rfl h.hold
  · rw [e]
    exact h.timeless h.synced rfl rfl rfl h.hold
  · rw [e]
    -- The timer starts anew, and takes longer than any fade.
    have longer : normal ≤ commitHold := by decide
    exact h.timeless h.synced rfl rfl rfl fun _ _ => h.fade.trans longer

theorem keyPressed_sound (h : Sound s) : Sound (s.keyPressed t text) := by
  unfold keyPressed
  split
  · exact h.timeless h.synced rfl rfl rfl h.hold
  · split
    · exact h.timeless h.synced rfl rfl rfl h.hold
    · split
      · rename_i attract
        split
        · exact h.setPhase (by simp [attract]) (by decide) fun _ => by decide
        · exact h
      · rename_i target
        split
        · exact moveSelection_sound h
        · split
          · exact moveSelection_sound h
          · split
            · split
              · exact h.enterConfirm (by simp [target])
              · exact h
            · split
              · exact h.timeless rfl rfl rfl rfl h.hold
              · exact h
      · rename_i confirm
        split
        · exact h
        · split
          · exact h.setPhase (by simp [confirm]) (by decide) fun _ => by decide
          · exact typeKey_sound h
      · exact h
      all_goals
        rename_i phase
        split
        · exact h.timeless h.synced rfl rfl rfl h.hold
        · split
          · exact h.setPhase (by simp [phase]) (by decide) fun _ => by decide
          · exact h

/-- The timer triggers after the picker is gone. -/
theorem pass_sound {ms : Nat} (h : Sound s) : Sound (s.pass ms) := by
  rcases pass_cases ms s with ⟨hold, left, waits⟩ | ⟨d, committed, confirm, due, -, -, -, begins⟩
  · rw [waits]
    refine ⟨h.synced, h.writing, fun install => ?_, (Nat.sub_le _ _).trans h.fade, fun c p => ?_⟩
    · change s.fade - ms = 0
      rw [h.faded install, Nat.zero_sub]
    · have before := h.hold c p
      have short : s.fade ≤ commitHold := h.fade.trans (by decide)
      change s.fade - ms ≤ hold
      omega
  · rw [begins]
    have faded := h.hold committed confirm
    refine ⟨h.synced, ⟨fun _ => rfl, fun _ => rfl⟩, fun _ => ?_, ?_, fun _ no => ?_⟩
    · change s.fade - ms = 0
      omega
    · exact (Nat.sub_le _ _).trans h.fade
    · cases no

theorem finish_sound {failed : Bool} (h : Sound s) : Sound (s.finish failed) := by
  unfold finish
  split
  · rename_i writing
    have install := h.writing.mp writing
    refine ⟨h.synced, ?_, ?_, ?_, ?_⟩
    · cases failed <;> exact ⟨Bool.noConfusion, Phase.noConfusion⟩
    · cases failed <;> exact Phase.noConfusion
    · exact setPhase_fade_le h.fade
    · cases failed <;> exact fun _ => Phase.noConfusion
  · exact h

theorem after_sound (h : Sound s) : Sound (after t e s) := by
  cases e with
  | key text => exact keyPressed_sound h
  | click index =>
    change Sound (if s.pickerVisible then s.pick index else s)
    split
    · rename_i visible
      exact pick_sound h visible
    · exact h
  | pass ms => exact pass_sound h
  | attach disks => exact h.timeless h.synced rfl rfl rfl h.hold
  | finish failed => exact finish_sound h

theorem ready_iff : Ready s ↔
    s.image = true ∧ ∃ d, s.disks[s.selected]? = some d ∧ d.eligible = true := by
  rw [Ready, Option.any_eq_true]

/-- An erase that is confirmed and ready gets its write. -/
theorem Ready.begins (h : Ready s) :
    s.beginInstall.phase = .install ∧ s.beginInstall.writing = true := by
  obtain ⟨image, d, found, eligible⟩ := ready_iff.mp h
  simp [beginInstall, found, eligible, image]

theorem beginInstall_idle (h : ¬ Ready s) : s.beginInstall = s := by
  rcases beginInstall_cases s with idle | ⟨d, found, eligible, image, -⟩
  · exact idle
  · exact absurd (ready_iff.mpr ⟨image, d, found, eligible⟩) h

/-- Where the power keys are live, one of them restarts. -/
theorem reaches_of_systemKeys (keys : s.systemKeys = true) : ReachesPower t s := by
  refine ⟨["r"], .reboot, ?_⟩
  change (s.keyPressed t "r").power = _
  simp [keyPressed, keys]

/-- A confirm screen that is not committed is left by a key. -/
theorem reaches_of_open (confirm : s.phase = .confirm) (open_ : s.committed = false) :
    ReachesPower t s := by
  refine ⟨[Key.escape, "r"], .reboot, ?_⟩
  have keys : s.systemKeys = false := by simp [systemKeys, confirm]
  have left : s.keyPressed t Key.escape = s.setPhase .target := by
    simp [keyPressed, keys, confirm, open_]
  change ((s.keyPressed t Key.escape).keyPressed t "r").power = _
  rw [left]
  have live : (s.setPhase .target).systemKeys = true := rfl
  simp [keyPressed, live]

theorem alive_of_not_wedged (h : Sound s) (free : ¬ Wedged s) : Alive t s ∧ Answered s := by
  have ready : s.committed = true → s.phase = .confirm → Ready s := by
    intro committed confirm
    by_contra idle
    exact free ⟨confirm, committed, idle⟩
  refine ⟨?_, fun committed confirm => ?_⟩
  · cases phase : s.phase with
    | install => exact .inl (h.writing.mpr phase)
    | confirm =>
      cases committed : s.committed with
      | false => exact .inr (.inl (reaches_of_open phase committed))
      | true => exact .inr (.inr ⟨committed, phase, (ready committed phase).begins.2⟩)
    | attract => exact .inr (.inl (reaches_of_systemKeys (by simp [systemKeys, phase])))
    | target => exact .inr (.inl (reaches_of_systemKeys (by simp [systemKeys, phase])))
    | summary => exact .inr (.inl (reaches_of_systemKeys (by simp [systemKeys, phase])))
    | failure => exact .inr (.inl (reaches_of_systemKeys (by simp [systemKeys, phase])))
  · rw [(ready committed confirm).begins.1]
    exact Phase.noConfusion

/-- A wedged window swallows every key. -/
theorem Wedged.keys (h : Wedged s) (keys : List String) : run t (keys.map .key) s = s := by
  induction keys with
  | nil => rfl
  | cons text keys ih =>
    have off : s.systemKeys = false := by simp [systemKeys, h.phase]
    have swallowed : s.keyPressed t text = s := by
      simp [keyPressed, off, h.phase, h.committed]
    change run t (keys.map .key) (s.keyPressed t text) = s
    rw [swallowed, ih]

theorem Wedged.not_alive (h : Wedged s) (sound : Sound s) : ¬ Alive t s := by
  rintro (writing | ⟨keys, p, more⟩ | ⟨-, -, writing⟩)
  · rw [sound.idle h.phase] at writing
    cases writing
  · rw [h.keys] at more
    simpa using congrArg List.length more
  · rw [beginInstall_idle h.idle, sound.idle h.phase] at writing
    cases writing

theorem Wedged.not_answered (h : Wedged s) : ¬ Answered s := by
  intro answered
  have leaves := answered h.committed h.phase
  rw [beginInstall_idle h.idle] at leaves
  exact leaves h.phase

/-- An event wedges a window exactly if it slips. -/
theorem wedged_after_iff (h : Sound s) (free : ¬ Wedged s) :
    Wedged (after t e s) ↔ Slips t e s := by
  constructor
  · rintro ⟨phase, committed, idle⟩
    have stays : enters e s = false := by
      cases entering : enters e s with
      | false => rfl
      | true =>
        rw [(after_enters (t := t) entering).1] at committed
        cases committed
    obtain ⟨confirm, ⟨text, rfl, open_, keyed⟩ | ⟨index, rfl, visible, cannot, picked⟩ |
      ⟨fade, hold, attached, waits⟩⟩ := confirm_cases phase stays
    · rw [keyed] at committed idle
      have kept : text ≠ Key.escape := by
        rintro rfl
        have keys : s.systemKeys = false := by simp [systemKeys, confirm]
        simp [after, keyPressed, keys, confirm, open_] at phase
      refine ⟨(typeKey_committed_iff open_ confirm kept).mp committed, fun ready => idle ?_⟩
      rw [Ready, typeKey_same.image, typeKey_disks.2, typeKey_selected]
      exact ready
    · rw [picked] at committed
      exact ⟨confirm, committed, visible, cannot⟩
    · rw [waits] at committed idle
      exact absurd ⟨confirm, committed, idle⟩ free
  · intro slips
    cases e with
    | key text =>
      obtain ⟨completes, idle⟩ := slips
      have keys : s.systemKeys = false := by simp [systemKeys, completes.phase]
      have keyed : s.keyPressed t text = s.typeKey t text := by
        simp [keyPressed, keys, completes.phase, completes.open_, completes.letter.1]
      change Wedged (s.keyPressed t text)
      rw [keyed]
      refine ⟨typeKey_phase.trans completes.phase, ?_, fun ready => idle ?_⟩
      · exact
          (typeKey_committed_iff completes.open_ completes.phase completes.letter.1).mpr completes
      · rw [Ready, typeKey_same.image, typeKey_disks.2, typeKey_selected] at ready
        exact ready
    | click index =>
      obtain ⟨confirm, committed, visible, cannot⟩ := slips
      have picked : after t (.click index) s = { s with selected := index } := by
        change (if s.pickerVisible then s.pick index else s) = _
        rw [if_pos visible, pick]
        exact if_neg (by simpa [selectedEligible] using cannot)
      rw [picked]
      refine ⟨confirm, committed, fun ready => ?_⟩
      obtain ⟨-, d, found, eligible⟩ := ready_iff.mp ready
      rw [h.synced, List.getElem?_map, show s.disks[index]? = some d from found] at cannot
      exact absurd (cannot.symm.trans eligible) (by decide)
    | pass ms => cases slips
    | attach disks => cases slips
    | finish failed => cases slips

theorem run_sound (h : Sound s) (events : List Event) : Sound (run t events s) := by
  have always : EachMeets (after t) (fun _ _ => True) events s :=
    eachMeets_of_forall (fun _ _ _ => trivial) s
  exact runAll_invariant (fun _ _ hs _ => after_sound hs) h always

end

theorem start_free (image : Bool) (attached : List Disk) : ¬ Wedged (start image attached) := by
  rintro ⟨phase, -, -⟩
  cases image <;> cases phase

/-- In a run of the installer every state can be left, and every confirmed erase leaves
the confirm screen, exactly if no event of the run slips. -/
theorem run_alive_iff (t : Texts) (image : Bool) (attached : List Disk) (events : List Event) :
    (∀ before rest, events = before ++ rest →
      Alive t (run t before (start image attached)) ∧
        Answered (run t before (start image attached))) ↔
    EachMeets (after t) (fun e s => ¬ Slips t e s) events (start image attached) := by
  have sound := start_sound image attached
  rw [eachMeets_iff]
  constructor
  · intro fine before e rest split slips
    have free : ¬ Wedged (run t before (start image attached)) := fun wedged =>
      wedged.not_answered (fine before (e :: rest) split).2
    have wedged := (wedged_after_iff (run_sound sound before) free).mpr slips
    rw [← run_snoc] at wedged
    exact wedged.not_answered (fine (before ++ [e]) rest (by simp [split])).2
  · intro careful before rest split
    refine alive_of_not_wedged (run_sound sound before) ?_
    induction before using List.reverseRecOn generalizing rest with
    | nil => exact start_free image attached
    | append_singleton before e ih =>
      have split : events = before ++ e :: rest := by simp [split]
      rw [run_snoc, wedged_after_iff (run_sound sound before) (ih (e :: rest) split)]
      exact careful before e rest split

/-- Texts of letters and digits. -/
def plainTexts : Texts where
  toUppercase text := String.ofList (text.toList.map Char.toUpper)
  toLowercase text := String.ofList (text.toList.map Char.toLower)
  isFloat text := !text.toList.isEmpty && text.toList.all Char.isDigit

def drive : Disk := ⟨"/dev/sda", "S3CA1B2", 64000000000, false, false⟩

def stick : Disk := ⟨"/dev/sdb", "U5BC3D4", 64000000000, false, true⟩

/-- The erase of a drive is confirmed, and its write started. -/
example : (run plainTexts ([Key.enter, Key.enter, "a", "x", "a", "1", "b", "2"].map .key ++
    [.pass 500]) (start true [drive, stick])).started = [drive] := by
  decide +kernel

/-- Without an image, the failure is left, and an erase confirmed. -/
def withoutImage : AppWindow :=
  run plainTexts ([Key.escape, Key.enter, "a", "1", "b", "2"].map .key) (start false [drive])

/-- The boot stick is clicked while the picker fades out, and its code typed. -/
def bootStick : AppWindow :=
  run plainTexts ([.key Key.enter, .key Key.enter, .pass 100, .click 1] ++
    ["c", "3", "d", "4"].map .key) (start true [drive, stick])

/-- Both are wedged. -/
theorem confirmed_erase_wedges :
    (¬ Alive plainTexts withoutImage ∧ ¬ Answered withoutImage) ∧
    ¬ Alive plainTexts bootStick ∧ ¬ Answered bootStick := by
  have first : Wedged withoutImage := by
    refine ⟨by decide +kernel, by decide +kernel, ?_⟩
    unfold Ready
    decide +kernel
  have second : Wedged bootStick := by
    refine ⟨by decide +kernel, by decide +kernel, ?_⟩
    unfold Ready
    decide +kernel
  exact ⟨⟨first.not_alive (run_sound (start_sound _ _) _), first.not_answered⟩,
    second.not_alive (run_sound (start_sound _ _) _), second.not_answered⟩

end CarbideOS.Installer
