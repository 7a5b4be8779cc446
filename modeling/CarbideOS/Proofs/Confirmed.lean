import CarbideOS.Proofs.Screens

namespace CarbideOS.Installer
open AppWindow Interruptible

/-- The keys among some events, as the code compares them. -/
def typedTexts (t : Texts) (events : List Event) : List String :=
  events.filterMap fun e =>
    match e with
    | .key text => some (t.toUppercase text)
    | _ => none

/-- The confirm screen is up for a disk. -/
structure Shows (s : AppWindow) (d : Disk) : Prop where
  phase : s.phase = .confirm
  disk : s.disks[s.selected]? = some d
  row : s.rows[s.selected]? = some (toRow d)

/-- The confirm screen was last entered by an event after the first of these, and has been
up for one disk since. -/
structure LastEntered (t : Texts) (s₀ : AppWindow) (before : List Event) (entry : Event)
    (since : List Event) (d : Disk) : Prop where
  entered : enters entry (run t before s₀) = true
  last : ∀ middle e rest, since = middle ++ e :: rest →
    enters e (run t (before ++ entry :: middle) s₀) = false
  same : ∀ middle, middle <+: since → Shows (run t (before ++ entry :: middle) s₀) d

section
variable {t : Texts} {s₀ : AppWindow} {before since events : List Event}
  {entry e : Event} {d : Disk}

theorem run_snoc (events : List Event) (e : Event) :
    run t (events ++ [e]) s₀ = after t e (run t events s₀) :=
  runAll_append events [e] s₀

/-- One more event, when the screen stays up for the disk. -/
theorem LastEntered.snoc (h : LastEntered t s₀ before entry since d)
    (stays : enters e (run t (before ++ entry :: since) s₀) = false)
    (shows : Shows (run t (before ++ entry :: (since ++ [e])) s₀) d) :
    LastEntered t s₀ before entry (since ++ [e]) d := by
  refine ⟨h.entered, ?_, ?_⟩
  · intro middle f rest split
    rcases List.eq_nil_or_concat rest with rfl | ⟨rest, g, rfl⟩
    · obtain ⟨rfl, rfl⟩ : since = middle ∧ e = f := by simpa using split
      exact stays
    · refine h.last middle f rest ?_
      have whole : since ++ [e] = (middle ++ f :: rest) ++ [g] := by simpa using split
      exact (List.append_inj' whole rfl).1
  · intro middle part
    rcases List.prefix_concat_iff.mp part with rfl | part
    · exact shows
    · exact h.same middle part

/-- What is known about the code on the confirm screen: it is that of one disk ever since,
and as much of it as counts was typed; or the disk cannot be erased. -/
def Trail (t : Texts) (s₀ : AppWindow) (events : List Event) (s : AppWindow) : Prop :=
  s.phase = .confirm →
    (s.rows[s.selected]?).any DiskInfo.eligible = false ∨
    ∃ before entry since d, events = before ++ entry :: since ∧
      LastEntered t s₀ before entry since d ∧ d.eligible = true ∧
      (d.confirmCode.take s.typed).Sublist (typedTexts t since) ∧
      (s.committed = true → d.confirmCode.length ≤ s.typed)

theorem run_synced (h : Synced s₀) (events : List Event) : Synced (run t events s₀) := by
  have always : EachMeets (after t) (fun _ _ => True) events s₀ :=
    eachMeets_of_forall (fun _ _ _ => trivial) s₀
  exact runAll_invariant (fun _ _ hs _ => after_synced hs) h always

theorem typedTexts_snoc_key (text : String) :
    typedTexts t (since ++ [.key text]) = typedTexts t since ++ [t.toUppercase text] := by
  simp [typedTexts]

theorem typedTexts_snoc (h : List String) (sub : h.Sublist (typedTexts t since)) :
    h.Sublist (typedTexts t (since ++ [e])) := by
  rw [typedTexts, List.filterMap_append]
  exact sub.trans (List.sublist_append_left _ _)

/-- What counts of the code after a key was typed by then, and all of it counts once the
erase is committed. -/
theorem typeKey_sublist {s : AppWindow} {text : String} {keys : List String}
    (open_ : s.committed = false) (row : s.rows[s.selected]? = some (toRow d))
    (sub : (d.confirmCode.take s.typed).Sublist keys) :
    (d.confirmCode.take (s.typeKey t text).typed).Sublist (keys ++ [t.toUppercase text]) ∧
      ((s.typeKey t text).committed = true → d.confirmCode.length ≤ (s.typeKey t text).typed) := by
  have longer : keys.Sublist (keys ++ [t.toUppercase text]) := List.sublist_append_left _ _
  rcases typeKey_cases t text s with h | h | h | ⟨row', shown, key, counts⟩
  · rw [h, open_]
    exact ⟨sub.trans longer, fun no => absurd no (by decide)⟩
  · rw [h]
    refine ⟨((List.take_prefix_take_left (by simp)).sublist.trans sub).trans longer, fun no => ?_⟩
    rw [open_] at no
    cases no
  · rw [h]
    refine ⟨List.nil_sublist _, fun no => ?_⟩
    rw [open_] at no
    cases no
  · obtain rfl := Option.some.inj (shown.symm.trans row)
    have next : d.confirmCode.take (s.typed + 1) =
        d.confirmCode.take s.typed ++ [t.toUppercase text] := by
      rw [List.take_add_one, show d.confirmCode[s.typed]? = _ from key]
      rfl
    have typed := sub.append_right [t.toUppercase text]
    rw [← next] at typed
    rcases counts with ⟨-, h⟩ | ⟨whole, h⟩
    · rw [h]
      refine ⟨typed, fun no => ?_⟩
      rw [open_] at no
      cases no
    · rw [h]
      exact ⟨typed, fun _ => Nat.le_of_eq whole⟩

/-- The code goes on being that of the disk, after an event that changes neither. -/
theorem Trail.waits (h : Trail t s₀ events (run t events s₀)) {s : AppWindow}
    (now : run t (events ++ [e]) s₀ = s) (stays : enters e (run t events s₀) = false)
    (confirm : (run t events s₀).phase = .confirm)
    (same : s.phase = .confirm ∧ s.rows = (run t events s₀).rows ∧
      s.disks = (run t events s₀).disks ∧ s.selected = (run t events s₀).selected)
    (typed : ∀ before entry since d, events = before ++ entry :: since →
      Shows (run t events s₀) d →
      (d.confirmCode.take (run t events s₀).typed).Sublist (typedTexts t since) →
      ((run t events s₀).committed = true → d.confirmCode.length ≤ (run t events s₀).typed) →
      (d.confirmCode.take s.typed).Sublist (typedTexts t (since ++ [e])) ∧
        (s.committed = true → d.confirmCode.length ≤ s.typed)) :
    Trail t s₀ (events ++ [e]) s := by
  intro _
  obtain ⟨phase, rows, disks, selected⟩ := same
  rcases h confirm with cannot | ⟨before, entry, since, d, whole, entered, can, sub, done⟩
  · rw [rows, selected]
    exact .inl cannot
  · have shows := entered.same since List.prefix_rfl
    rw [← whole] at shows
    obtain ⟨sub, done⟩ := typed before entry since d whole shows sub done
    refine .inr ⟨before, entry, since ++ [e], d, by simp [whole], ?_, can, sub, done⟩
    refine entered.snoc (by rw [← whole]; exact stays) ?_
    have longer : before ++ entry :: (since ++ [e]) = events ++ [e] := by simp [whole]
    rw [longer, now]
    exact ⟨phase,
      by rw [disks, selected]; exact shows.disk, by rw [rows, selected]; exact shows.row⟩

theorem trail (synced : Synced s₀) (start : s₀.phase ≠ .confirm) (events : List Event) :
    Trail t s₀ events (run t events s₀) := by
  induction events using List.reverseRecOn with
  | nil => exact fun confirm => absurd confirm start
  | append_singleton events e ih =>
    have now : run t (events ++ [e]) s₀ = after t e (run t events s₀) := run_snoc events e
    rw [now]
    intro shown
    cases entering : enters e (run t events s₀) with
    | true =>
      obtain ⟨entered, eligible⟩ := after_enters (t := t) entering
      obtain ⟨d, disk, row, can⟩ := (run_synced synced events).row eligible
      refine .inr ⟨events, e, [], d, rfl, ⟨entering, ?_, ?_⟩, can, ?_, ?_⟩
      · intro middle f rest split
        simp at split
      · intro middle part
        obtain rfl := List.prefix_nil.mp part
        rw [run_snoc, entered]
        exact ⟨rfl, disk, row⟩
      · rw [entered]
        exact List.nil_sublist _
      · intro committed
        rw [entered] at committed
        cases committed
    | false =>
      obtain ⟨confirm, typed | clicked | waited⟩ := confirm_cases shown entering
      · obtain ⟨text, rfl, open_, keyed⟩ := typed
        refine Trail.waits ih now entering confirm ?_ ?_ shown
        · rw [keyed]
          exact ⟨typeKey_phase.trans confirm, typeKey_disks.1, typeKey_disks.2, typeKey_selected⟩
        · intro before entry since d whole shows sub done
          rw [keyed, typedTexts_snoc_key]
          exact typeKey_sublist open_ shows.row sub
      · obtain ⟨index, -, -, cannot, picked⟩ := clicked
        rw [picked]
        exact .inl cannot
      · obtain ⟨fade, hold, attached, waits⟩ := waited
        refine Trail.waits ih now entering confirm ?_ ?_ shown
        · rw [waits]
          exact ⟨confirm, rfl, rfl, rfl⟩
        · intro before entry since d whole shows sub done
          rw [waits]
          exact ⟨typedTexts_snoc _ sub, done⟩

end

/-- Whatever happens to the window, an event starts no write, or one of a disk that may
be erased, was selected when the confirm screen was last entered and has been shown by it
since, with the whole of its code typed in order since. -/
theorem started_confirmed (t : Texts) (image : Bool) (attached : List Disk) (events : List Event)
    (e : Event) :
    (run t (events ++ [e]) (start image attached)).started =
      (run t events (start image attached)).started ∨
    ∃ d before entry since, (run t (events ++ [e]) (start image attached)).started =
        (run t events (start image attached)).started ++ [d] ∧
      d.eligible = true ∧ events = before ++ entry :: since ∧
      LastEntered t (start image attached) before entry since d ∧
      d.confirmCode.Sublist (typedTexts t since) := by
  have closed : (start image attached).phase ≠ .confirm := by
    cases image <;> exact Phase.noConfusion
  rw [run_snoc]
  rcases started_cases t e (run t events (start image attached)) with
    same | ⟨ms, d, -, committed, confirm, found, eligible, -, more⟩
  · exact .inl same
  · right
    have synced := run_synced (t := t) (start_synced image attached) events
    have row : (run t events (start image attached)).rows[
        (run t events (start image attached)).selected]? = some (toRow d) := by
      rw [synced, List.getElem?_map, found]
      rfl
    rcases trail (t := t) (start_synced image attached) closed events confirm with
      cannot | ⟨before, entry, since, d', whole, entered, -, sub, done⟩
    · rw [row] at cannot
      exact absurd (cannot.symm.trans eligible) (by decide)
    · have shows := (entered.same since List.prefix_rfl).disk
      rw [← whole, found] at shows
      obtain rfl := Option.some.inj shows
      rw [List.take_of_length_le (done committed)] at sub
      exact ⟨d, before, entry, since, more, eligible, whole, entered, sub⟩

end CarbideOS.Installer
