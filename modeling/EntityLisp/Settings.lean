import EntityLisp.Stack
import EntityLisp.Text.Blank
import EntityLisp.Text.Digit
import EntityLisp.Text.Quoted

/-!
# Settings

Two settings are given as text: how deep evaluation may nest, and which reports are kept. A
missing or empty text leaves a setting alone. The depth falls back to its default on any text
that is no positive whole number; a level is given by number or by name, in any case of letters.
-/

namespace EntityLisp

/-! ### Whole numbers in settings -/

/-- Digits of any script, where a single underscore may stand between two of them. -/
def groupedDigits? : List Char → Option (List Nat)
  | [] => none
  | [c] => (decimalDigit? c).map ([·])
  | c :: '_' :: rest => (decimalDigit? c).bind fun d => (groupedDigits? rest).map (d :: ·)
  | c :: rest => (decimalDigit? c).bind fun d => (groupedDigits? rest).map (d :: ·)

/-- A whole number with an optional sign. -/
def readSetting? (text : List Char) : Option Int :=
  let magnitude := fun digits => (groupedDigits? digits).map fun ds => (ofDigitValues ds : Int)
  match text with
  | '-' :: digits => (magnitude digits).map (- ·)
  | '+' :: digits => magnitude digits
  | digits => magnitude digits

/-! ### The depth of evaluation -/

/-- **The depth limit** that a setting asks for. -/
def maxDepth (setting : Option String) : Nat :=
  match setting.bind fun text => readSetting? (trimBlank text.toList) with
  | some n => if 0 < n then n.toNat else defaultMaxDepth
  | none => defaultMaxDepth

theorem maxDepth_pos (setting : Option String) : 0 < maxDepth setting := by
  unfold maxDepth
  split
  · split <;> simp_all [defaultMaxDepth]
  · simp [defaultMaxDepth]

/-! ### The level of reports -/

/-- The names of levels, with the number each stands for. -/
def levelNames : List (String × Nat) :=
  [("CRITICAL", 50), ("FATAL", 50), ("ERROR", 40), ("WARNING", 30), ("WARN", 30), ("INFO", 20),
    ("DEBUG", 10), ("NOTSET", 0)]

/-- The capital of a letter of a level name. Beside the small letters of ASCII, the dotless i and
the long s have such capitals. -/
def capital (c : Char) : Char :=
  if c = 'ı' then 'I' else if c = 'ſ' then 'S' else c.toUpper

/-- A level text made up of digits, some of which are no decimal digits. -/
structure LevelError where
  text : String
  deriving DecidableEq

/-- The message for such a text. The text is shown in at most two hundred characters. -/
def LevelError.message (error : LevelError) : String :=
  "invalid literal for int() with base 10: " ++
    String.ofList ((quoted error.text).toList.take 200)

/-- **The level** that a setting asks for, if it names one. -/
def logLevel (setting : Option String) : Except LevelError (Option Nat) :=
  match setting with
  | none | some "" => .ok none
  | some text =>
    let chars := trimBlank text.toList
    if !chars.isEmpty && chars.all isDigitLike then
      match readDigits? chars with
      | some n => .ok (some n)
      | none => .error ⟨String.ofList chars⟩
    else
      let name := String.ofList (chars.map capital)
      .ok ((levelNames.find? (·.1 == name)).map (·.2))

example : maxDepth (some " 1_000 ") = 1000 := by decide +kernel

example : maxDepth (some "-5") = defaultMaxDepth := by decide +kernel

example : (logLevel (some "Warn")).toOption = some (some 30) := by decide +kernel

end EntityLisp
