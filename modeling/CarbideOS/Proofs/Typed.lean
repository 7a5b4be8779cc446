import CarbideOS.Installer.Code
import CarbideOS.Proofs.Confirmed

namespace CarbideOS.Installer
open AppWindow

section
variable {P : Char → Prop} {c : Char}

/-- What holds of each of the first 128 characters. -/
theorem forall_ascii (h : ∀ n < 128, P (Char.ofNat n)) (small : c.toNat < 128) : P c := by
  have := h c.toNat small
  rwa [Char.ofNat_toNat] at this

theorem isAlphanum_small (h : c.isAlphanum = true) : c.toNat < 128 := by
  by_contra large
  have above : 'z'.val < c.val := by
    rw [UInt32.lt_iff_toNat_lt]
    exact lt_of_lt_of_le (by decide) (Nat.le_of_not_lt large)
  simp only [Char.isAlphanum, Char.isAlpha, Char.isUpper, Char.isLower, Char.isDigit,
    Bool.or_eq_true, Bool.and_eq_true, decide_eq_true_eq] at h
  grind

theorem toUpper_other (h : c.isAlphanum = false) : c.toUpper = c := by
  apply Char.toUpper_eq_of_not_isLower
  intro lower
  simp [Char.isAlphanum, Char.isAlpha, lower] at h

theorem isAlpha_changes (h : c.isAlpha = true) : c.toUpper ≠ c.toLower := by
  intro same
  have up := Char.isUpper_toUpper_eq_isAlpha c
  rw [same, Char.isUpper_toLower_eq_false, h] at up
  cases up

theorem isAlphanum_ne_edits (h : c.isAlphanum = true) :
    c.toString ≠ Key.backspace ∧ c.toString ≠ Key.escape := by
  exact forall_ascii
    (P := fun c => c.isAlphanum = true → c.toString ≠ Key.backspace ∧ c.toString ≠ Key.escape)
    (by decide +kernel) (isAlphanum_small h) h

end

section
variable {t : Texts} {d : Disk} {name char : String} {c : Char} {s : AppWindow}

/-- What is used of the serial of a disk, or of the name of its device. -/
def lastOf (text : String) : List Char := text.toList.drop (text.toList.length - len)

/-- The serial gives the code. -/
def Disk.SerialUsable (d : Disk) : Prop :=
  len ≤ d.serial.toList.length ∧ (lastOf d.serial).all Char.isAlphanum = true

instance : Decidable d.SerialUsable := inferInstanceAs (Decidable (_ ∧ _))

/-- Two texts are the same up to the case of the letters of ASCII. -/
def SameAscii (a b : List Char) : Prop := a.map Char.toUpper = b.map Char.toUpper

/-- The text on the screen, when the whole code is typed. -/
def ConfirmCode.reads (code : ConfirmCode) : List Char :=
  code.context ++ code.chars.flatMap String.toList

theorem afterLast_devNode (plain : '/' ∉ name.toList) : Shell.afterLast (devNode name) '/' = name :=
  Shell.afterLast_append (s := "/dev") plain

theorem confirmCode_serial (h : d.SerialUsable) : d.confirmCode = (lastOf d.serial).map upper :=
  if_pos h

theorem confirmCode_device (plain : '/' ∉ name.toList) (named : d.node = devNode name)
    (h : ¬d.SerialUsable) : d.confirmCode = (lastOf name).map upper := by
  have cut : d.confirmCode = (lastOf (Shell.afterLast d.node '/')).map upper := if_neg h
  rw [cut, named, afterLast_devNode plain]

theorem reads_upper (a b : List Char) :
    SameAscii (a ++ (b.map upper).flatMap String.toList) (a ++ b) := by
  induction b with
  | nil => simp [SameAscii]
  | cons c b ih =>
    simp only [SameAscii, List.map_append, List.append_cancel_left_eq] at ih ⊢
    simp [upper, ih]

theorem devNode_split (named : d.node = devNode name) : d.node.toList =
    ("/dev/".toList ++ name.toList.take (name.toList.length - len)) ++ lastOf name := by
  rw [named, devNode, String.toList_append, lastOf, List.append_assoc, List.take_append_drop]

/-- The path is cut between two characters, before the last ones of the name. -/
theorem confirmCodeParts_device (plain : '/' ∉ name.toList) (named : d.node = devNode name)
    (h : ¬d.SerialUsable) : d.confirmCodeParts = some
      ⟨"DEVICE", "/dev/".toList ++ name.toList.take (name.toList.length - len),
        (lastOf name).map upper⟩ := by
  have last : name.toList.reverse.take (min name.toList.length len) = (lastOf name).reverse := by
    rw [lastOf, List.reverse_drop]
    congr 1
    omega
  have whole := devNode_split named
  have behind : Text.bytes (lastOf name).reverse = Text.bytes (lastOf name) := by
    rw [Text.bytes, List.map_reverse, List.sum_reverse, Text.bytes]
  have start : Text.bytes d.node.toList - Text.bytes (lastOf name) =
      Text.bytes ("/dev/".toList ++ name.toList.take (name.toList.length - len)) := by
    rw [whole, Text.bytes_append, Nat.add_sub_cancel]
  have cut := Text.splitAtByte_eq_some.mpr ⟨whole, rfl⟩
  have parts : d.confirmCodeParts =
      (Text.splitAtByte (Text.bytes d.node.toList - Text.bytes
        ((Shell.afterLast d.node '/').toList.reverse.take
          (min (Shell.afterLast d.node '/').toList.length len))) d.node.toList).map
            fun split => ⟨"DEVICE", split.1, split.2.map upper⟩ := if_neg h
  rw [parts, named, afterLast_devNode plain, ← named, last, behind, start, cut]
  rfl

theorem confirmCodeParts_serial (h : d.SerialUsable) : d.confirmCodeParts = some
    ⟨"SERIAL", d.serial.toList.take (d.serial.toList.length - len), (lastOf d.serial).map upper⟩ :=
  if_pos h

/-- The code is cut without a panic, has up to four characters, and is read as the end of
the serial or of the path. -/
theorem confirmCodeParts_some (some_ : name ≠ "") (plain : '/' ∉ name.toList)
    (named : d.node = devNode name) :
    ∃ code, d.confirmCodeParts = some code ∧ code.chars = d.confirmCode ∧
      1 ≤ code.chars.length ∧ code.chars.length ≤ 4 ∧
        (SameAscii code.reads d.serial.toList ∨ SameAscii code.reads d.node.toList) := by
  by_cases h : d.SerialUsable
  · refine ⟨_, confirmCodeParts_serial h, (confirmCode_serial h).symm, ?_, ?_, .inl ?_⟩
    · have long := h.1
      rw [len] at long
      simp only [List.length_map, lastOf, List.length_drop, len]
      omega
    · simp only [List.length_map, lastOf, List.length_drop, len]
      omega
    · have read :=
        reads_upper (d.serial.toList.take (d.serial.toList.length - len)) (lastOf d.serial)
      rwa [lastOf, List.take_append_drop] at read
  · refine ⟨_, confirmCodeParts_device plain named h,
      (confirmCode_device plain named h).symm, ?_, ?_, .inr ?_⟩
    · have chars : name.toList ≠ [] := by simpa using some_
      have := List.length_pos_iff.mpr chars
      simp only [List.length_map, lastOf, List.length_drop, len]
      omega
    · simp only [List.length_map, lastOf, List.length_drop, len]
      omega
    · rw [devNode_split named]
      exact reads_upper _ _

/-- Of the characters of ASCII, the toolkit lets letters and digits be typed. -/
theorem types_upper_iff (unicode : Unicode t) : (∃ press, Types t press (upper c)) ↔
    c.isAlphanum = true ∨ 128 ≤ c.toNat ∧ ∃ press, Types t press c.toString := by
  cases alnum : c.isAlphanum with
  | true =>
    refine iff_of_true ⟨c.toString, (isAlphanum_ne_edits alnum).1,
      (isAlphanum_ne_edits alnum).2, ?_⟩
      (.inl rfl)
    cases alpha : c.isAlpha with
    | true =>
      obtain ⟨up, down⟩ := unicode.letter c alpha
      refine ⟨.inr ?_, up⟩
      rw [up, down]
      intro same
      exact isAlpha_changes alpha (by simpa [Char.toString_eq_singleton] using same)
    | false =>
      have digit : c.isDigit = true := by simpa [Char.isAlphanum, alpha] using alnum
      obtain ⟨up, number⟩ := unicode.digit c digit
      have same : c.toUpper = c := by
        apply Char.toUpper_eq_of_not_isLower
        intro lower
        simp [Char.isAlpha, lower] at alpha
      exact ⟨.inl number, by rw [up, upper, same]⟩
  | false =>
    rw [upper, toUpper_other alnum]
    constructor
    · rintro ⟨press, types⟩
      refine .inr ⟨?_, press, types⟩
      by_contra small
      obtain ⟨-, -, counts, up⟩ := types
      obtain ⟨same, down, number⟩ := unicode.mark c press (by omega) alnum up
      rcases counts with counts | counts
      · rw [number] at counts
        cases counts
      · exact counts (by rw [up, down])
    · rintro (no | ⟨-, press⟩)
      · cases no
      · exact press

/-- On the screen that asks for a code, any key but escape goes to the code. -/
theorem keyPressed_asks {k : Nat} {press : String} (asks : Asks d k s) :
    s.keyPressed t press =
      if press = Key.escape then s.setPhase .target else s.typeKey t press := by
  simp [keyPressed, systemKeys, asks.phase, asks.committed]

/-- A press that stands for the next character of the code counts. -/
theorem keyPressed_types {k : Nat} {press : String} (asks : Asks d k s)
    (next : d.confirmCode[k]? = some char) (types : Types t press char) :
    s.keyPressed t press = if d.confirmCode.length ≤ k + 1 then { s with typed := k + 1 }.commit
      else { s with typed := k + 1 } := by
  obtain ⟨edit, leave, counts, rfl⟩ := types
  have heard : (!t.isFloat press && t.toUppercase press == t.toLowercase press) = false := by
    rcases counts with counts | counts <;> simp [counts]
  have key : (toRow d).codeChars[k]? = some (t.toUppercase press) := next
  rw [keyPressed_asks asks, if_neg leave, typeKey, if_neg edit, heard, if_neg (by decide)]
  simp only [asks.row, asks.typed, Option.map_some, Option.getD_some, key, if_true]
  rfl

theorem asks_types {k : Nat} {press : String} (asks : Asks d k s)
    (next : d.confirmCode[k]? = some char) (types : Types t press char)
    (more : k + 1 < d.confirmCode.length) : Asks d (k + 1) (s.keyPressed t press) := by
  rw [keyPressed_types asks next types, if_neg (by omega)]
  exact ⟨asks.phase, asks.committed, rfl, asks.row⟩

/-- A press that counts stands for the next character of the code. -/
theorem asks_counts {k : Nat} {press : String} (asks : Asks d k s)
    (counts : (s.keyPressed t press).typed = k + 1) :
    d.confirmCode[k]? = some (t.toUppercase press) ∧ Types t press (t.toUppercase press) := by
  have typed := asks.typed
  rw [keyPressed_asks asks] at counts
  split at counts
  · rw [setPhase_typed] at counts
    omega
  · rename_i leave
    rw [typeKey] at counts
    split at counts
    · change s.typed - 1 = k + 1 at counts
      omega
    · rename_i edit
      split at counts
      · omega
      · rename_i heard
        simp only [asks.row, asks.typed, Option.map_some, Option.getD_some] at counts
        split at counts
        · rename_i next
          refine ⟨next, edit, leave, ?_, rfl⟩
          simpa [or_iff_not_imp_left] using heard
        · cases counts

theorem keys_snoc {presses : List String} {k : Nat} {press : String}
    (next : presses[k]? = some press) : run t ((presses.take (k + 1)).map .key) s =
      (run t ((presses.take k).map .key) s).keyPressed t press := by
  rw [List.take_add_one, next, Option.toList_some, List.map_append, List.map_singleton, run_snoc]
  rfl

/-- Where there is a press for each character, each counts until the last is typed. -/
theorem asks_take {presses : List String} (pressed : List.Forall₂ (Types t) presses d.confirmCode)
    (asks : Asks d 0 s) (k : Nat) (hk : k < presses.length) :
    Asks d k (run t ((presses.take k).map .key) s) := by
  induction k with
  | zero => exact asks
  | succ k ih =>
    have before : k < presses.length := by omega
    have inside : k < d.confirmCode.length := by rwa [← pressed.length_eq]
    rw [keys_snoc (List.getElem?_eq_getElem before)]
    exact asks_types (ih before) (List.getElem?_eq_getElem inside) (pressed.get before inside)
      (by rwa [← pressed.length_eq])

/-- A code can be typed when each of its characters can. -/
theorem confirmable_iff (some_ : 1 ≤ d.confirmCode.length) :
    Confirmable t d ↔ ∀ char ∈ d.confirmCode, ∃ press, Types t press char := by
  constructor
  · rintro ⟨presses, length, all⟩ char member
    obtain ⟨k, inside, rfl⟩ := List.mem_iff_getElem.mp member
    let s : AppWindow :=
      { image := true, attached := [], phase := .confirm, rows := [toRow d] }
    obtain ⟨each, typed, -⟩ := all s ⟨rfl, rfl, rfl, rfl⟩
    have here : k < presses.length := by omega
    have counts : (run t ((presses.take (k + 1)).map .key) s).typed = k + 1 := by
      rcases Nat.lt_or_ge (k + 1) presses.length with more | last
      · exact (each (k + 1) more).typed
      · rw [List.take_of_length_le last, typed]
        omega
    rw [keys_snoc (List.getElem?_eq_getElem here)] at counts
    obtain ⟨next, types⟩ := asks_counts (each k here) counts
    rw [List.getElem?_eq_getElem inside] at next
    exact ⟨presses[k], Option.some.inj next ▸ types⟩
  · intro each
    choose! press types using each
    have pressed : List.Forall₂ (Types t) (d.confirmCode.map press) d.confirmCode := by
      rw [List.forall₂_map_left_iff, List.forall₂_same]
      exact types
    refine ⟨d.confirmCode.map press, by simp, fun s asks => ⟨asks_take pressed asks, ?_⟩⟩
    obtain ⟨k, length⟩ : ∃ k, d.confirmCode.length = k + 1 := ⟨_, (Nat.sub_add_cancel some_).symm⟩
    have inside : k < d.confirmCode.length := by omega
    have last : k < (d.confirmCode.map press).length := by simpa using inside
    have whole : d.confirmCode.map press = (d.confirmCode.map press).take (k + 1) := by
      rw [List.take_of_length_le (by simp [length])]
    have final : Types t (d.confirmCode.map press)[k] d.confirmCode[k] := pressed.get last inside
    rw [whole, keys_snoc (List.getElem?_eq_getElem last), keyPressed_types
      (asks_take pressed asks k last) (List.getElem?_eq_getElem inside) final,
      if_pos (by omega), ← whole]
    exact ⟨by simp [length, commit], rfl⟩

/-- A disk is confirmed by typing its code when the serial gives the code, or when the end
of the name of the device has letters and digits, and beyond ASCII what capitals are typed
as. -/
theorem confirmed_by_typing (unicode : Unicode t) (some_ : name ≠ "") (plain : '/' ∉ name.toList)
    (named : d.node = devNode name) :
    (∃ code, d.confirmCodeParts = some code ∧ code.chars = d.confirmCode ∧
      1 ≤ code.chars.length ∧ code.chars.length ≤ 4 ∧
        (SameAscii code.reads d.serial.toList ∨ SameAscii code.reads d.node.toList) ∧
          (∀ char ∈ code.chars, ∃ press, Types t press char) ∧ Confirmable t d) ↔
    d.SerialUsable ∨ ∀ c ∈ lastOf name,
      c.isAlphanum = true ∨ 128 ≤ c.toNat ∧ ∃ press, Types t press c.toString := by
  obtain ⟨code, parts, chars, least, most, reads⟩ := confirmCodeParts_some some_ plain named
  have typable : (∀ char ∈ d.confirmCode, ∃ press, Types t press char) ↔
      d.SerialUsable ∨ ∀ c ∈ lastOf name,
        c.isAlphanum = true ∨ 128 ≤ c.toNat ∧ ∃ press, Types t press c.toString := by
    by_cases h : d.SerialUsable
    · refine iff_of_true ?_ (.inl h)
      rw [confirmCode_serial h, List.forall_mem_map]
      intro c member
      exact (types_upper_iff unicode).mpr (.inl (List.all_eq_true.mp h.2 c member))
    · rw [confirmCode_device plain named h, List.forall_mem_map]
      simp only [types_upper_iff unicode, h, false_or]
  rw [← typable]
  constructor
  · rintro ⟨code', parts', chars', -, -, -, each, -⟩
    rwa [chars'] at each
  · intro each
    refine ⟨code, parts, chars, least, most, reads, by rwa [chars], ?_⟩
    exact (confirmable_iff (by rwa [← chars])).mpr each

end

/-- The toolkit, as it treats the texts of ASCII. -/
def ascii : Texts where
  toUppercase s := String.ofList (s.toList.map Char.toUpper)
  toLowercase s := String.ofList (s.toList.map Char.toLower)
  isFloat s := s != "" && s.toList.all Char.isDigit

theorem ascii_unicode : Unicode ascii where
  letter c _ := ⟨by simp [ascii, Char.toString_eq_singleton],
    by simp [ascii, Char.toString_eq_singleton]⟩
  digit c digit := by
    have same : c.toUpper = c := by
      refine forall_ascii (P := fun c => c.isDigit = true → c.toUpper = c) (by decide +kernel)
        (isAlphanum_small ?_) digit
      simp [Char.isAlphanum, digit]
    simp [ascii, same, digit, Char.toString_eq_singleton]
  mark c text small other up := by
    have chars : text.toList.map Char.toUpper = [c] := by
      simpa [ascii, Char.toString_eq_singleton] using congrArg String.toList up
    obtain ⟨e, single, rfl⟩ := List.map_eq_singleton_iff.mp chars
    have letter : e.isAlpha = false := by
      rw [Char.isAlphanum, Char.isAlpha_toUpper_eq_isAlpha, Bool.or_eq_false_iff] at other
      exact other.1
    rw [Char.isAlpha, Bool.or_eq_false_iff] at letter
    have same : e.toUpper = e := Char.toUpper_eq_of_not_isLower (by simp [letter.2])
    have lower : e.toLower = e := Char.toLower_eq_of_not_isUpper (by simp [letter.1])
    obtain rfl : text = e.toString := by
      apply String.toList_inj.mp
      simp [single, Char.toString_eq_singleton]
    rw [same] at other ⊢
    refine ⟨rfl, ?_, ?_⟩
    · simp [ascii, lower, Char.toString_eq_singleton]
    · rw [Char.isAlphanum, Bool.or_eq_false_iff] at other
      simp [ascii, other.2, Char.toString_eq_singleton]

/-- The disk of a serial that gives no code. -/
def plainDisk (name : String) : Disk := ⟨devNode name, "", 2 ^ 33, false, false⟩

theorem confirmed_by_typing_sda :
    (∃ code, (plainDisk "sda").confirmCodeParts = some code ∧
      code.chars = (plainDisk "sda").confirmCode ∧
      1 ≤ code.chars.length ∧ code.chars.length ≤ 4 ∧
        (SameAscii code.reads (plainDisk "sda").serial.toList ∨
          SameAscii code.reads (plainDisk "sda").node.toList) ∧
          (∀ char ∈ code.chars, ∃ press, Types ascii press char) ∧
            Confirmable ascii (plainDisk "sda")) :=
  (confirmed_by_typing ascii_unicode (show "sda" ≠ "" by decide) (by decide) rfl).mpr
    (.inr fun c member => .inl (List.all_eq_true.mp (by decide) c member))

/-- A disk that may be erased, and whose code has a character that no key types. -/
theorem untypable_code :
    (plainDisk "pmem0.1").eligible = true ∧
      (plainDisk "pmem0.1").confirmCode = ["M", "0", ".", "1"] ∧
      (¬∃ press, Types ascii press ".") ∧ ¬Confirmable ascii (plainDisk "pmem0.1") := by
  have code : (plainDisk "pmem0.1").confirmCode = ["M", "0", ".", "1"] := by decide +kernel
  have dot : ¬∃ press, Types ascii press "." := by
    intro typed
    rcases (types_upper_iff (c := '.') ascii_unicode).mp typed with no | ⟨no, -⟩
    · exact absurd no (by decide)
    · exact absurd no (by decide)
  refine ⟨by decide, code, dot, fun typed => dot ?_⟩
  rw [confirmable_iff (by rw [code]; decide), code] at typed
  exact typed "." (by decide)

end CarbideOS.Installer
