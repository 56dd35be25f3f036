import MaximalCliques.Binary64

/-!
# Sizes in memory

A number of bytes is written in the largest binary unit that it fills, with three significant digits
or all the digits before the point, whichever is more.

* **`Text.memoryUnits`** — the units.
* **`Text.significant`** — a fraction with three significant digits.
* **`Text.memorySize`** — a number of bytes in its unit.
-/

namespace MaximalCliques.Text

/-- The units, each 1024 times as large as the one before. -/
def memoryUnits : List String := ["bytes", "KiB", "MiB", "GiB", "TiB", "PiB", "EiB"]

/-- A fraction with three significant digits, or all the digits before the point; the point is
written even if no digit follows it.  A half goes to the even digit. -/
def significant (num den : Nat) : String :=
  let hundredths := Binary64.roundQuotient (100 * num) den
  let tenths := Binary64.roundQuotient (10 * num) den
  let two (n : Nat) : String := s!"{n / 10}{n % 10}"
  if hundredths < 1000 then s!"{hundredths / 100}." ++ two (hundredths % 100)
  else if tenths < 1000 then s!"{tenths / 10}.{tenths % 10}"
  else s!"{Binary64.roundQuotient num den}."

/-- A number of bytes in the largest unit that it fills; a number that rounds to 1024 of a unit is one
of the next. -/
def memorySize (bytes : Nat) : String :=
  let unit := min (max bytes.log2 1 / 10) (memoryUnits.length - 1)
  let (num, den) := match Binary64.nearest false bytes (Binary64.scaleUp 1024 unit 1) with
    | .finite _ m e => (Binary64.scaleUp 2 e m, Binary64.scaleUp 2 (-e) 1)
    | .infinite _ => (bytes, 1)
  let (unit, den) := if Binary64.roundQuotient num den = 1024 && unit + 1 < memoryUnits.length then
    (unit + 1, 1024 * den) else (unit, den)
  let figure := if unit = 0 then toString bytes else significant num den
  figure ++ " " ++ memoryUnits.getD unit ""

example : [1023, 1024, 1048575, 8300000000, 1000000000000, 9223372036854775807].map memorySize =
    ["1023 bytes", "1.00 KiB", "1.00 MiB", "7.73 GiB", "931. GiB", "8.00 EiB"] := by
  decide +kernel

end MaximalCliques.Text
