import CarbideOS.Installer.Direct
import CarbideOS.Proofs.Written

namespace CarbideOS.Installer.Write

variable {job : Job} {t : Transfer} {image buf : AlignedBuf}

/-- A transfer keeps to the image. -/
def Transfer.Inside (job : Job) (t : Transfer) : Prop := t.offset + t.len ≤ job.total

theorem writes_aligned (whole : 4096 ∣ job.total) (h : t ∈ job.writes image) :
    t.Aligned ∧ t.Inside job := by
  obtain ⟨i, below, there⟩ := List.mem_flatMap.mp h
  rw [List.mem_range] at below
  unfold pwriteAll at there
  split at there
  · cases there
  · obtain rfl := List.mem_singleton.mp there
    have span : 4096 ∣ spanSize := by decide
    have start : 4096 ∣ offset i := span.mul_left i
    have len : 4096 ∣ job.len i := by
      rcases min_choice spanSize (job.total - offset i) with same | same
      · rw [Job.len, same]
        exact span
      · rw [Job.len, same]
        exact Nat.dvd_sub whole start
    have page : 512 ∣ 4096 := by decide
    refine ⟨⟨page.trans start, page.trans len, page.trans (image.aligned.add start)⟩, ?_⟩
    exact span_fits below

/-- The samples of an image suit the device exactly if the last one is a whole window, or they
stand apart by so many sectors. -/
theorem samples_aligned_iff (whole : 4096 ∣ job.total) :
    (∀ i < samples, 512 ∣ (job.sample i).2) ↔
      window ≤ job.total - 11 * (job.total / samples) ∨ 512 ∣ job.total / samples := by
  have sectors : 512 ∣ job.total := (by decide : 512 ∣ 4096).trans whole
  have fits : 12 * (job.total / samples) ≤ job.total := Nat.mul_div_le _ _
  constructor
  · intro all
    by_cases large : window ≤ job.total - 11 * (job.total / samples)
    · exact .inl large
    · have last := all 11 (by decide)
      have cut : (job.sample 11).2 = job.total - 11 * (job.total / samples) :=
        Nat.min_eq_right (Nat.le_of_not_le large)
      rw [cut] at last
      exact .inr (by omega)
  · intro apart i some_
    change 512 ∣ min window (job.total - i * (job.total / samples))
    have before : i * (job.total / samples) ≤ 11 * (job.total / samples) :=
      Nat.mul_le_mul_right _ (Nat.le_of_lt_succ some_)
    rcases apart with large | apart
    · rw [Nat.min_eq_left (large.trans (Nat.sub_le_sub_left before _))]
      decide
    · rcases min_choice window (job.total - i * (job.total / samples)) with same | same
      · rw [same]
        decide
      · rw [same]
        exact Nat.dvd_sub sectors (apart.mul_left i)

/-- A sample starts at a page, and ends inside the image. -/
theorem sample_inside {i : Nat} (some_ : i < samples) : 512 ∣ (job.sample i).1 ∧
    (job.sample i).1 + (job.sample i).2 ≤ job.total := by
  have within : i * (job.total / samples) ≤ samples * (job.total / samples) :=
    Nat.mul_le_mul_right _ some_.le
  have fits := Nat.mul_div_le job.total samples
  unfold Job.sample
  dsimp only
  refine ⟨?_, ?_⟩
  · omega
  · omega

/-- Reading back a device that holds the image: all that is looked for is read as far as the
transfers suit the device, and then all is well. -/
theorem compare_holds {content device : Nat → UInt8}
    (same : ∀ x < job.total, device x = content x) (rest : List Nat)
    (some_ : ∀ i ∈ rest, i < samples) :
    ((∀ t ∈ (job.compare content (direct device) buf rest).1, t.Aligned ∧ t.Inside job) ∧
        (job.compare content (direct device) buf rest).2 = .ok ()) ↔
      ∀ i ∈ rest, 512 ∣ (job.sample i).2 := by
  induction rest with
  | nil => simp [Job.compare]
  | cons i rest ih =>
    have here := some_ i List.mem_cons_self
    obtain ⟨start, fits⟩ : 512 ∣ (job.sample i).1 ∧
      (job.sample i).1 + (job.sample i).2 ≤ job.total :=
      sample_inside here
    have more := ih fun j hj => some_ j (List.mem_cons_of_mem _ hj)
    have page : 512 ∣ buf.address := (by decide : 512 ∣ 4096).trans buf.aligned
    have kept : slice device (job.sample i).1 (job.sample i).2 =
        slice content (job.sample i).1 (job.sample i).2 := by
      refine List.map_congr_left fun k hk => same _ ?_
      rw [List.mem_range] at hk
      omega
    rw [List.forall_mem_cons]
    by_cases suits : 512 ∣ (job.sample i).2
    · have aligned : Transfer.Aligned ⟨(job.sample i).1, (job.sample i).2, buf.address⟩ :=
        ⟨start, suits, page⟩
      have went : job.compare content (direct device) buf (i :: rest) =
          (⟨(job.sample i).1, (job.sample i).2, buf.address⟩ ::
              (job.compare content (direct device) buf rest).1,
            (job.compare content (direct device) buf rest).2) := by
        simp only [Job.compare, direct, if_pos aligned, kept, ne_eq, not_true, if_false]
      rw [went, List.forall_mem_cons, ← more]
      exact ⟨fun h => ⟨suits, h.1.2, h.2⟩, fun h => ⟨⟨⟨aligned, fits⟩, h.2.1⟩, h.2.2⟩⟩
    · have misfit : ¬ Transfer.Aligned ⟨(job.sample i).1, (job.sample i).2, buf.address⟩ :=
        fun h => suits h.2.1
      have went : job.compare content (direct device) buf (i :: rest) =
          ([⟨(job.sample i).1, (job.sample i).2, buf.address⟩],
            .error "Invalid argument (os error 22)") := by
        simp only [Job.compare, direct, if_neg misfit]
      rw [went]
      exact ⟨fun h => absurd h.2 nofun, fun h => absurd h.1 suits⟩

/-- With an image of whole pages, all the transfers of a run suit the device and keep to the
image, and an image that is written passes, exactly if the last sample is a whole window or the
samples stand apart by so many sectors. -/
theorem transfers_aligned_iff (job : Job) (image buf : AlignedBuf) (whole : 4096 ∣ job.total) :
    ((∀ t ∈ job.writes image, t.Aligned ∧ t.Inside job) ∧
      ∀ content device : Nat → UInt8, (∀ x < job.total, device x = content x) →
        (∀ t ∈ (job.spotCheck content (direct device) buf).1, t.Aligned ∧ t.Inside job) ∧
        (job.spotCheck content (direct device) buf).2 = .ok ()) ↔
      (window ≤ job.total - 11 * (job.total / samples) ∨ 512 ∣ job.total / samples) := by
  have below : ∀ i ∈ List.range samples, i < samples := fun i => List.mem_range.mp
  by_cases nothing : job.total = 0
  · have apart : 512 ∣ job.total / samples := by simp [nothing]
    have none_ : ∀ content device, job.spotCheck content device buf = ([], .ok ()) :=
      fun _ _ => if_pos nothing
    refine ⟨fun _ => .inr apart, fun _ => ⟨fun t => writes_aligned whole, ?_⟩⟩
    intro content device _
    rw [none_]
    exact ⟨nofun, rfl⟩
  · have some_ : ∀ content device, job.spotCheck content device buf =
        job.compare content device buf (List.range samples) := fun _ _ => if_neg nothing
    rw [← samples_aligned_iff whole]
    constructor
    · rintro ⟨-, all⟩ i hi
      have read := all (fun _ => 0) (fun _ => 0) fun _ _ => rfl
      rw [some_] at read
      exact (compare_holds (fun _ _ => rfl) _ below).mp read i (List.mem_range.mpr hi)
    · intro all
      refine ⟨fun t => writes_aligned whole, fun content device same => ?_⟩
      rw [some_]
      exact (compare_holds same _ below).mpr fun i hi => all i (below i hi)

/-- An image of so many bytes, written with one worker. -/
def imageOf (total : Nat) : Job where
  total := total
  source := total
  workers := 1
  some_worker := Nat.one_pos
  formatSize := fun n => s!"{n} B"

def firstPage : AlignedBuf := ⟨4096, Nat.dvd_refl _⟩

theorem transfers_aligned_whole :
    (∀ t ∈ (imageOf (12 * 2 ^ 20)).writes firstPage, t.Aligned ∧ t.Inside (imageOf (12 * 2 ^ 20))) ∧
      ∀ content device : Nat → UInt8,
        (∀ x < (imageOf (12 * 2 ^ 20)).total, device x = content x) →
        (∀ t ∈ ((imageOf (12 * 2 ^ 20)).spotCheck content (direct device) firstPage).1,
          t.Aligned ∧ t.Inside (imageOf (12 * 2 ^ 20))) ∧
        ((imageOf (12 * 2 ^ 20)).spotCheck content (direct device) firstPage).2 = .ok () :=
  (transfers_aligned_iff (imageOf (12 * 2 ^ 20)) firstPage firstPage (by decide)).mpr
    (.inl (by decide))

/-- An image of one page is written, and is then refused by the device. -/
theorem page_misread : 4096 ∣ (imageOf 4096).total ∧
    ¬ ((∀ t ∈ ((imageOf 4096).spotCheck (fun _ => 0) (direct fun _ => 0) firstPage).1,
        t.Aligned ∧ t.Inside (imageOf 4096)) ∧
      ((imageOf 4096).spotCheck (fun _ => 0) (direct fun _ => 0) firstPage).2 = .ok ()) := by
  have below : ∀ i ∈ List.range samples, i < samples := fun i => List.mem_range.mp
  refine ⟨by decide, fun read => ?_⟩
  rw [Job.spotCheck, if_neg (by decide)] at read
  have aligned := (compare_holds (fun _ _ => rfl) _ below).mp read 1 (by decide)
  exact absurd aligned (by decide)

end CarbideOS.Installer.Write
