import CarbideOS.Installer.Scan
import CarbideOS.Proofs.Wedged

namespace CarbideOS.Installer

namespace Sysfs

/-- What is never offered: a device that is passed over, one that is read only, and the one
that the system was loaded from. -/
def Barred (t : Texts) (s : Sysfs) (name : String) : Prop :=
  skipPrefixes.any (Text.startsWith name) = true ∨
    s.flag (join (join blockDevices name) "ro") = true ∨
    ∃ part ∈ s.bootPartition t, s.contains name part = true

def sectors (s : Sysfs) (name : String) : Nat :=
  ((s.readTrimmed (join (join blockDevices name) "size")).bind (Text.parseUnsigned 64)).getD 0

/-- All entries can be read, each under a name of its own, and the loader's partition is on one
disk at most. -/
structure Regular (t : Texts) (s : Sysfs) (names : List String) : Prop where
  entries : s.entries = some (names.map some)
  distinct : names.Nodup
  held : ∀ part ∈ s.bootPartition t, ∀ a ∈ names, ∀ b ∈ names,
    s.contains a part = true → s.contains b part = true → a = b

/-- The boot loader has put the identifier of its partition into the firmware's variable, and
the system knows the partition by it. -/
structure LoadedFrom (t : Texts) (s : Sysfs) (part : String) : Prop where
  stated : ∃ (attributes : List UInt8) (uuid : List Char) (behind : List UInt8) (link : String),
    attributes.length = 4 ∧ '\x00' ∉ uuid ∧
    s.read loaderVariable =
      some (attributes ++ (Text.littleEndian (Text.utf16 uuid) ++ 0 :: 0 :: behind)) ∧
    s.readLink (join "/dev/disk/by-partuuid" (t.toLowercase (String.ofList uuid))) = some link ∧
    fileName link = some part

/-- The kernel's directory in another order. -/
def reordered (s : Sysfs) (names : List String) : Sysfs :=
  { s with entries := some (names.map some) }

/-- A disk that can be written to comes before one that cannot, and a larger one before a
smaller one. -/
def Precedes (a b : FoundDisk) : Prop :=
  a.eligible = true ∧ b.eligible = false ∨
    a.eligible = b.eligible ∧ (b.bytes < a.bytes ∨ a.bytes = b.bytes ∧ a.node < b.node)

section
variable {t : Texts} {s : Sysfs} {boot : Option String} {name part : String} {names : List String}
  {d : FoundDisk}

instance : Std.TransCmp order := by
  unfold order
  infer_instance

theorem order_eq {a b : FoundDisk} (same : order a b = .eq) : a.node = b.node := by
  simp only [order, compareLex, Ordering.then_eq_eq] at same
  exact Std.LawfulEqCmp.eq_of_compare same.2.2

theorem precedes_of_order {a b : FoundDisk} (ordered : (order a b).isLE = true)
    (other : a.node ≠ b.node) : Precedes a b := by
  rw [order, compareLex, compareLex, compareOn, Sorting.descending, Sorting.descending] at ordered
  cases first : compare b.eligible a.eligible with
  | lt =>
    left
    cases here : a.eligible <;> cases there : b.eligible
    all_goals rw [here, there] at first
    · cases first
    · cases first
    · exact ⟨rfl, rfl⟩
    · cases first
  | gt => simp [first] at ordered
  | eq =>
    have same := Std.LawfulEqCmp.eq_of_compare first
    refine .inr ⟨same.symm, ?_⟩
    cases second : compare b.bytes a.bytes with
    | lt => exact .inl (Std.compare_eq_lt.mp second)
    | gt => simp [first, second] at ordered
    | eq =>
      have size := Std.LawfulEqCmp.eq_of_compare second
      refine .inr ⟨size.symm, ?_⟩
      cases third : compare a.node b.node with
      | lt =>
        change compareOfLessAndEq a.node b.node = .lt at third
        exact compareOfLessAndEq_eq_lt.mp third
      | gt => simp [first, second, third] at ordered
      | eq => exact absurd (Std.LawfulEqCmp.eq_of_compare third) other

theorem examine_eq_some (found : s.examine boot name = some d) :
    skipPrefixes.any (Text.startsWith name) = false ∧ d.node = "/dev/" ++ name ∧
      d.bytes = s.sectors name * 512 % 2 ^ 64 ∧
      d.readOnly = s.flag (join (join blockDevices name) "ro") ∧
      d.bootMedia = (boot == some name) := by
  unfold examine at found
  split at found
  · cases found
  · rename_i taken
    dsimp only at found
    split at found
    · cases found
    · obtain rfl := Option.some.inj found
      exact ⟨by simpa using taken, rfl, rfl, rfl, rfl⟩

theorem examine_isSome (taken : skipPrefixes.any (Text.startsWith name) = false)
    (sized : s.sectors name ≠ 0) : ∃ d, s.examine boot name = some d := by
  unfold examine
  rw [if_neg (by simp [taken])]
  exact ⟨_, if_neg sized⟩

/-- The disk that has the partition, where one has it at most. -/
theorem holder_eq_some (held : ∀ a ∈ names, ∀ b ∈ names,
    s.contains a part = true → s.contains b part = true → a = b) {disk : String} :
    s.holder part (names.map some) = some disk ↔ disk ∈ names ∧ s.contains disk part = true := by
  induction names with
  | nil => simp [holder]
  | cons name names ih =>
    rw [List.map_cons, holder]
    split
    · rename_i has
      constructor
      · rintro found
        obtain rfl := Option.some.inj found
        exact ⟨List.mem_cons_self, has⟩
      · rintro ⟨member, has'⟩
        rw [held name List.mem_cons_self disk member has has']
    · rename_i lacks
      rw [ih fun a ha b hb => held a (List.mem_cons_of_mem _ ha) b (List.mem_cons_of_mem _ hb)]
      constructor
      · rintro ⟨member, has⟩
        exact ⟨List.mem_cons_of_mem _ member, has⟩
      · rintro ⟨member, has⟩
        rcases List.mem_cons.mp member with rfl | member
        · exact absurd has lacks
        · exact ⟨member, has⟩

theorem bootDisk_eq_some (regular : s.Regular t names) {disk : String} :
    s.bootDisk t = some disk ↔
      disk ∈ names ∧ ∃ part ∈ s.bootPartition t, s.contains disk part = true := by
  cases loaded : s.bootPartition t with
  | none =>
    have none_ : s.bootDisk t = none := by
      rw [bootDisk, loaded]
      rfl
    simp [none_]
  | some part =>
    have searched : s.bootDisk t = s.holder part (names.map some) := by
      rw [bootDisk, loaded, regular.entries]
      rfl
    rw [searched, holder_eq_some (regular.held part loaded)]
    simp

theorem Regular.reordered (regular : s.Regular t names) {names' : List String}
    (same : names'.Perm names) : (s.reordered names').Regular t names' where
  entries := rfl
  distinct := same.nodup_iff.mpr regular.distinct
  held part loaded a ha b hb := regular.held part loaded a (same.subset ha) b (same.subset hb)

theorem bootDisk_reordered (regular : s.Regular t names) {names' : List String}
    (same : names'.Perm names) : (s.reordered names').bootDisk t = s.bootDisk t := by
  refine Option.ext fun disk => ?_
  rw [bootDisk_eq_some (regular.reordered same), bootDisk_eq_some regular, same.mem_iff]
  rfl

theorem enumerate_eq (regular : s.Regular t names) :
    s.enumerate t = (names.filterMap (s.examine (s.bootDisk t))).mergeSort
      (Sorting.notAfter order) := by
  rw [enumerate, regular.entries]
  simp [List.filterMap_map]

theorem mem_enumerate (regular : s.Regular t names) :
    d ∈ s.enumerate t ↔ ∃ name ∈ names, s.examine (s.bootDisk t) name = some d := by
  rw [enumerate_eq regular, List.mem_mergeSort, List.mem_filterMap]

/-- Two disks of one name are one. -/
theorem examine_inj {name' : String} {d' : FoundDisk} (found : s.examine boot name = some d)
    (found' : s.examine boot name' = some d') (same : d.node = d'.node) : name = name' := by
  obtain ⟨-, node, -⟩ := examine_eq_some found
  obtain ⟨-, node', -⟩ := examine_eq_some found'
  rw [node, node'] at same
  exact Text.append_left_cancel same

theorem found_nodup (distinct : names.Nodup) :
    (names.filterMap (s.examine boot)).Pairwise fun a b => a.node ≠ b.node := by
  rw [List.pairwise_filterMap]
  refine distinct.imp fun {a b} other d found d' found' same => other ?_
  exact examine_inj found found' same

theorem enumerate_reordered (regular : s.Regular t names) {names' : List String}
    (same : names'.Perm names) : (s.reordered names').enumerate t = s.enumerate t := by
  rw [enumerate_eq (regular.reordered same), enumerate_eq regular, bootDisk_reordered regular same]
  refine Sorting.sorted_of_perm ?_ (same.filterMap _)
  intro a ha b hb equal
  obtain ⟨name, -, found⟩ := List.mem_filterMap.mp ha
  obtain ⟨name', -, found'⟩ := List.mem_filterMap.mp hb
  obtain rfl := examine_inj found found' (order_eq equal)
  exact Option.some.inj (found.symm.trans found')

theorem enumerate_sorted (regular : s.Regular t names) : (s.enumerate t).Pairwise Precedes := by
  have apart : (s.enumerate t).Pairwise fun a b => a.node ≠ b.node := by
    rw [enumerate_eq regular]
    exact (List.mergeSort_perm _ _).symm.pairwise (found_nodup regular.distinct) fun h => Ne.symm h
  have sorted : (s.enumerate t).Pairwise fun a b => (order a b).isLE = true := by
    rw [enumerate_eq regular]
    exact Sorting.pairwise_sorted _
  exact sorted.imp₂ (fun a b => precedes_of_order) apart

theorem bootPartition_eq (loaded : s.LoadedFrom t part) : s.bootPartition t = some part := by
  obtain ⟨attributes, uuid, behind, link, four, text, variable_, linked, named⟩ := loaded.stated
  have long : ¬ (attributes ++
      (Text.littleEndian (Text.utf16 uuid) ++ 0 :: 0 :: behind)).length < 6 := by
    simp only [List.length_append, List.length_cons]
    omega
  rw [bootPartition, variable_]
  simp only [Option.bind_eq_bind, Option.bind_some, if_neg long]
  rw [List.drop_left' four, Text.takeWhile_units text, Text.decode16_utf16]
  simp [linked, named]

/-- What is found under a name can be written to unless something speaks against it. -/
theorem found_eligible (regular : s.Regular t names) (member : name ∈ names)
    (found : s.examine (s.bootDisk t) name = some d) :
    d.eligible = true ↔ ¬ s.Barred t name ∧ minBytes ≤ s.sectors name * 512 % 2 ^ 64 := by
  obtain ⟨taken, -, bytes, readOnly, bootMedia⟩ := examine_eq_some found
  have booted : d.bootMedia = true ↔ ∃ part ∈ s.bootPartition t, s.contains name part = true := by
    rw [bootMedia, beq_iff_eq, bootDisk_eq_some regular]
    exact and_iff_right member
  rw [Disk.eligible, bytes, readOnly, Barred, ← booted, taken]
  cases s.flag (join (join blockDevices name) "ro") <;> cases d.bootMedia <;> simp

theorem offered_iff (regular : s.Regular t names) (member : name ∈ names) :
    (∃ d ∈ s.enumerate t, d.node = "/dev/" ++ name ∧ d.eligible = true) ↔
      ¬ s.Barred t name ∧ minBytes ≤ s.sectors name * 512 % 2 ^ 64 := by
  constructor
  · rintro ⟨d, listed, node, eligible⟩
    obtain ⟨name', member', found⟩ := (mem_enumerate regular).mp listed
    have node' := (examine_eq_some found).2.1
    obtain rfl : name = name' := Text.append_left_cancel (node.symm.trans node')
    exact (found_eligible regular member found).mp eligible
  · rintro ⟨free, large⟩
    have taken : skipPrefixes.any (Text.startsWith name) = false := by
      rw [← Bool.not_eq_true]
      exact fun skipped => free (.inl skipped)
    have sized : s.sectors name ≠ 0 := by
      intro zero
      rw [zero] at large
      exact absurd large (by decide)
    obtain ⟨d, found⟩ : ∃ d, s.examine (s.bootDisk t) name = some d := examine_isSome taken sized
    exact ⟨d, (mem_enumerate regular).mpr ⟨name, member, found⟩, (examine_eq_some found).2.1,
      (found_eligible regular member found).mpr ⟨free, large⟩⟩

/-- The cursor starts on the largest disk that can be written to. -/
theorem refresh_selects {l : List FoundDisk} (sorted : l.Pairwise Precedes) {w : AppWindow}
    (attached : w.attached = l.map FoundDisk.toDisk) (listed : d ∈ l)
    (eligible : d.eligible = true) :
    w.refresh.selected = 0 ∧
      ∃ e, w.refresh.disks[0]? = some e ∧ e.eligible = true ∧ d.bytes ≤ e.bytes := by
  cases l with
  | nil => cases listed
  | cons e l =>
    have first : e.eligible = true ∧ d.bytes ≤ e.bytes := by
      rcases List.mem_cons.mp listed with rfl | behind
      · exact ⟨eligible, Nat.le_refl _⟩
      · rcases List.rel_of_pairwise_cons sorted behind with ⟨can, cannot⟩ | ⟨same, larger⟩
        · rw [eligible] at cannot
          cases cannot
        · refine ⟨same.trans eligible, ?_⟩
          rcases larger with less | ⟨equal, -⟩
          · exact less.le
          · exact equal.symm.le
    refine ⟨?_, e.toDisk, ?_, first⟩
    · simp [AppWindow.refresh, attached, List.findIdx?_cons, first.1]
    · simp [AppWindow.refresh, attached]

/-- A scan offers a disk exactly if it is none of those to keep clear of and large enough. It
lists disks in an order of their own, whatever the order of the directory is, and the cursor
starts on the largest one there is to write to. -/
theorem scan_offers (regular : s.Regular t names) :
    (∀ name ∈ names, (∃ d ∈ s.enumerate t, d.node = "/dev/" ++ name ∧ d.eligible = true) ↔
      ¬ s.Barred t name ∧ minBytes ≤ s.sectors name * 512 % 2 ^ 64) ∧
    (s.enumerate t).Pairwise Precedes ∧
    (∀ names', names'.Perm names → (s.reordered names').enumerate t = s.enumerate t) ∧
    ∀ w : AppWindow, w.attached = (s.enumerate t).map FoundDisk.toDisk →
      ∀ d ∈ s.enumerate t, d.eligible = true → w.refresh.selected = 0 ∧
        ∃ e, w.refresh.disks[0]? = some e ∧ e.eligible = true ∧ d.bytes ≤ e.bytes :=
  ⟨fun _ member => offered_iff regular member, enumerate_sorted regular,
    fun _ same => enumerate_reordered regular same,
    fun _ attached _ listed eligible =>
      refresh_selects (enumerate_sorted regular) attached listed eligible⟩

end

/-- A machine with a drive, and a stick that it was started from. -/
def bench : Sysfs where
  entries := some [some "loop0", some "sdb", some "sda"]
  read path :=
    if path = loaderVariable then
      some ([7, 0, 0, 0] ++ (Text.littleEndian (Text.utf16 "0B1C".toList) ++ [0, 0]))
    else if path = "/sys/block/sda/size" then some (Text.utf8 "1000215216\n".toList)
    else if path = "/sys/block/sdb/size" then some (Text.utf8 "60062500\n".toList)
    else none
  readLink path := if path = "/dev/disk/by-partuuid/0b1c" then some "../../sdb1" else none
  isThere path := path == "/sys/block/sdb/sdb1"

theorem bench_loaded : bench.LoadedFrom plainTexts "sdb1" := by
  refine ⟨[7, 0, 0, 0], "0B1C".toList, [], "../../sdb1", rfl, by decide, rfl, ?_, ?_⟩
  · decide
  · decide

theorem bench_regular : bench.Regular plainTexts ["loop0", "sdb", "sda"] where
  entries := rfl
  distinct := by decide
  held part loaded := by
    rw [bootPartition_eq bench_loaded] at loaded
    obtain rfl := Option.some.inj loaded
    decide

/-- The drive comes before the stick. -/
theorem bench_found : bench.enumerate plainTexts =
    ["sda", "sdb"].filterMap (bench.examine (bench.bootDisk plainTexts)) := by
  have other : ["sda", "sdb", "loop0"].Perm ["loop0", "sdb", "sda"] := by decide
  rw [← enumerate_reordered bench_regular other, enumerate_eq (bench_regular.reordered other),
    bootDisk_reordered bench_regular other]
  refine (List.mergeSort_of_pairwise ?_).trans ?_
  · decide +kernel
  · decide +kernel

theorem scan_offers_bench :
    (∀ name ∈ ["loop0", "sdb", "sda"],
      (∃ d ∈ bench.enumerate plainTexts, d.node = "/dev/" ++ name ∧ d.eligible = true) ↔
      ¬ bench.Barred plainTexts name ∧ minBytes ≤ bench.sectors name * 512 % 2 ^ 64) ∧
    (bench.enumerate plainTexts).Pairwise Precedes ∧
    (∀ names', names'.Perm ["loop0", "sdb", "sda"] →
      (bench.reordered names').enumerate plainTexts = bench.enumerate plainTexts) ∧
    ∀ w : AppWindow, w.attached = (bench.enumerate plainTexts).map FoundDisk.toDisk →
      ∀ d ∈ bench.enumerate plainTexts, d.eligible = true → w.refresh.selected = 0 ∧
        ∃ e, w.refresh.disks[0]? = some e ∧ e.eligible = true ∧ d.bytes ≤ e.bytes :=
  scan_offers bench_regular

end Sysfs
end CarbideOS.Installer
