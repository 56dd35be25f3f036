/-!
# Integers written as text

A numeral is an optional sign and decimal digits of any scripts, with single underscores allowed
between digits and blanks allowed around the whole.  The blanks are the control characters from tab to
carriage return, the space, and those beyond the plain script; the digits are the characters of general
category Nd, which come in runs of ten, in ascending value.  A numeral has at most 4300 digits.

* **`Text.trimBlanks`** — a text without the blanks at its two ends.
* **`Text.decimalValue?`** — the value of a decimal digit of any script.
* **`Text.readInteger?`** — the integer that a text denotes, if it is a numeral.
-/

namespace MaximalCliques.Text

/-! ### Blanks -/

/-- A character that may surround a numeral. -/
def isBlank (c : Char) : Bool :=
  let n := c.toNat
  (9 ≤ n && n ≤ 13) || n == 0x20 || n == 0x85 || n == 0xA0 || n == 0x1680 ||
    (0x2000 ≤ n && n ≤ 0x200A) || n == 0x2028 || n == 0x2029 || n == 0x202F || n == 0x205F ||
    n == 0x3000

def trimBlanks (cs : List Char) : List Char :=
  ((cs.dropWhile isBlank).reverse.dropWhile isBlank).reverse

/-! ### Digits -/

/-- The code points of the zeros, one for each run of ten decimal digits. -/
def zeros : List Nat :=
  [
   0x30, 0x660, 0x6F0, 0x7C0, 0x966, 0x9E6, 0xA66, 0xAE6, 0xB66, 0xBE6, 0xC66, 0xCE6, 0xD66,
   0xDE6, 0xE50, 0xED0, 0xF20, 0x1040, 0x1090, 0x17E0, 0x1810, 0x1946, 0x19D0, 0x1A80, 0x1A90,
   0x1B50, 0x1BB0, 0x1C40, 0x1C50, 0xA620, 0xA8D0, 0xA900, 0xA9D0, 0xA9F0, 0xAA50, 0xABF0, 0xFF10,
   0x104A0, 0x10D30, 0x11066, 0x110F0, 0x11136, 0x111D0, 0x112F0, 0x11450, 0x114D0, 0x11650,
   0x116C0, 0x11730, 0x118E0, 0x11950, 0x11C50, 0x11D50, 0x11DA0, 0x16A60, 0x16AC0, 0x16B50,
   0x1D7CE, 0x1D7D8, 0x1D7E2, 0x1D7EC, 0x1D7F6, 0x1E140, 0x1E2F0, 0x1E950, 0x1FBF0]

def decimalValue? (c : Char) : Option Nat :=
  (zeros.find? fun z => z ≤ c.toNat && c.toNat < z + 10).map fun z => c.toNat - z

/-- The digits of the plain script have their usual values. -/
example : "0123456789".toList.map decimalValue? = (List.range 10).map some := by decide

/-- A letter is no digit. -/
example : decimalValue? 'a' = none := by decide

/-! ### Numerals -/

/-- The most digits that a numeral may have. -/
def digitLimit : Nat := 4300

/-- Reads digits with single underscores between them: their value and their number.  `value` and
`count` describe the digits already read; `afterDigit` tells whether the last character was one. -/
def readDigits? (value count : Nat) (afterDigit : Bool) : List Char → Option (Nat × Nat)
  | [] => if afterDigit then some (value, count) else none
  | c :: cs =>
    if c = '_' then if afterDigit then readDigits? value count false cs else none
    else match decimalValue? c with
      | some d => readDigits? (10 * value + d) (count + 1) true cs
      | none => none

def readInteger? (s : String) : Option Int :=
  let (negative, digits) := match trimBlanks s.toList with
    | '-' :: cs => (true, cs)
    | '+' :: cs => (false, cs)
    | cs => (false, cs)
  match readDigits? 0 0 false digits with
  | some (value, count) =>
    if digitLimit < count then none else some (if negative then -(value : Int) else value)
  | none => none

/-- Blanks, a sign and an underscore between digits are accepted. -/
example : readInteger? " +1_0\n" = some 10 := by decide +kernel

/-- An underscore at the end is not. -/
example : readInteger? "1_" = none := by decide +kernel

end MaximalCliques.Text
