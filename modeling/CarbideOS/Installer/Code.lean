import CarbideOS.Installer.Screens
import CarbideOS.Lib.Utf8

namespace CarbideOS.Installer

/-- The code, and the text before it on the screen. -/
structure ConfirmCode where
  kind : String
  context : List Char
  chars : List String
  deriving DecidableEq, Repr

/-- A code has this many characters, where there are as many. -/
def len : Nat := 4

def upper (c : Char) : String := c.toUpper.toString

/-- The code of a disk; a slice of the path that would split a character panics. -/
def Disk.confirmCodeParts (d : Disk) : Option ConfirmCode :=
  let serial := d.serial.toList
  let code := serial.drop (serial.length - len)
  if len ≤ serial.length ∧ code.all Char.isAlphanum then
    some ⟨"SERIAL", serial.take (serial.length - len), code.map upper⟩
  else
    let node := d.node.toList
    let name := (Shell.afterLast d.node '/').toList
    let take := min name.length len
    let split := Text.bytes node - Text.bytes (name.reverse.take take)
    (Text.splitAtByte split node).map fun (context, code) => ⟨"DEVICE", context, code.map upper⟩

/-- The path of the device that the kernel calls by a name. -/
def devNode (name : String) : String := "/dev/" ++ name

namespace AppWindow

/-- The toolkit's rules for letters, digits and the other characters of ASCII. -/
structure Unicode (t : Texts) : Prop where
  letter : ∀ c : Char, c.isAlpha →
    t.toUppercase c.toString = c.toUpper.toString ∧ t.toLowercase c.toString = c.toLower.toString
  digit : ∀ c : Char, c.isDigit →
    t.toUppercase c.toString = c.toString ∧ t.isFloat c.toString = true
  mark : ∀ (c : Char) (text : String), c.toNat < 128 → c.isAlphanum = false →
    t.toUppercase text = c.toString →
      text = c.toString ∧ t.toLowercase text = c.toString ∧ t.isFloat text = false

/-- A key that is none of those that edit, changes case or parses, and stands for a
character of a code. -/
def Types (t : Texts) (press char : String) : Prop :=
  press ≠ Key.backspace ∧ press ≠ Key.escape ∧
    (t.isFloat press = true ∨ t.toUppercase press ≠ t.toLowercase press) ∧
      t.toUppercase press = char

/-- The screen that asks for the code of a disk, when so many of its characters count. -/
structure Asks (d : Disk) (k : Nat) (s : AppWindow) : Prop where
  phase : s.phase = .confirm
  committed : s.committed = false
  typed : s.typed = k
  row : s.rows[s.selected]? = some (toRow d)

/-- There are key presses, one for each character of the code, each of which counts, and
with the last of which the erase is committed. -/
def Confirmable (t : Texts) (d : Disk) : Prop :=
  ∃ presses : List String, presses.length = d.confirmCode.length ∧
    ∀ s, Asks d 0 s →
      (∀ k < presses.length, Asks d k (run t ((presses.take k).map .key) s)) ∧
        (run t (presses.map .key) s).typed = presses.length ∧
          (run t (presses.map .key) s).committed = true

end AppWindow
end CarbideOS.Installer
