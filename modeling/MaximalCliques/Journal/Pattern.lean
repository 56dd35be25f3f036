import MaximalCliques.Identifier.Arithmetic
import MaximalCliques.Journal.Figure
import MaximalCliques.Journal.Record
import MaximalCliques.Text.Numeral
import MaximalCliques.Text.Quoted
import MaximalCliques.Text.Word

/-!
# Patterns that lay out records

A pattern is a text with fields such as `%(message)s`; a doubled percent sign stands for one.  The
first field may do without a key and then stands for the record written out.

* **`Pattern.isValid`** — does the pattern hold a field at all?
* **`Pattern.render?`** — the record laid out; `none` if the pattern asks for something that is not
  known of a record or is cut short.
-/

namespace MaximalCliques

namespace Pattern

/-- How a field is laid out. -/
structure Field where
  /-- The key of the content; a field without one stands for the whole record. -/
  key : Option String := none
  flags : List Char := []
  width : Nat := 0
  precision : Option Nat := none

/-! ### Laying out one field -/

/-- Fills a text up to the width of its field. -/
def Field.fill (f : Field) (cs : List Char) : List Char :=
  let gap := List.replicate (f.width - cs.length) ' '
  if f.flags.contains '-' then cs ++ gap else gap ++ cs

def Field.layText (f : Field) (s : String) : List Char :=
  f.fill (match f.precision with
    | some n => s.toList.take n
    | none => s.toList)

/-- Digits in their field, after a sign and a mark; the field may be filled with zeros. -/
def Field.laySigned (f : Field) (negative : Bool) (mark digits : List Char) : List Char :=
  let sign := if negative then ['-'] else if f.flags.contains '+' then ['+']
    else if f.flags.contains ' ' then [' '] else []
  let zeros := if f.flags.contains '0' && !f.flags.contains '-' then
    List.replicate (f.width - (sign.length + mark.length + digits.length)) '0' else []
  f.fill (sign ++ mark ++ zeros ++ digits)

/-- The largest precision of a number. -/
def greatestPrecision : Nat := 2147483644

/-- A number in its field, with at least as many digits as the precision says. -/
def Field.layNumber? (f : Field) (base : Nat) (mark : List Char) (n : Int) : Option (List Char) :=
  let precision := f.precision.getD 0
  if greatestPrecision < precision then none
  else
    let digits := Nat.toDigits base n.natAbs
    let digits := List.replicate (precision - digits.length) '0' ++ digits
    some (f.laySigned (n < 0) (if f.flags.contains '#' then mark else []) digits)

/-- The places of a figure for which the field gives no precision. -/
def usualPlaces : Nat := 6

/-- A real in its field, written with a point; what is infinite or undefined has a word. -/
def Field.layFigure? (f : Field) (write : Bool → Nat → Nat → Nat → List Char)
    (x : Option Binary64) : Option (List Char) :=
  let places := f.precision.getD usualPlaces
  if greatestPrecision < places then none
  else some (match x with
    | some (.finite negative m e) => f.laySigned negative [] (write (f.flags.contains '#') places
        (Binary64.scaleUp 2 e m) (Binary64.scaleUp 2 (-e) 1))
    | some (.infinite negative) => f.laySigned negative [] ['i', 'n', 'f']
    | none => f.laySigned false [] ['n', 'a', 'n'])

def character? (n : Int) : Option Char :=
  if h : 0 ≤ n ∧ n.toNat.isValidChar then some (Char.ofNatAux n.toNat h.2) else none

def Field.layInteger? (f : Field) (n : Int) (conversion : Char) : Option (List Char) :=
  match conversion with
  | 'c' => (character? n).map fun c => f.fill [c]
  | 'x' => f.layNumber? 16 ['0', 'x'] n
  | 'X' => (f.layNumber? 16 ['0', 'x'] n).map (·.map Char.toUpper)
  | 'o' => f.layNumber? 8 ['0', 'o'] n
  | _ => none

/-- A real laid out as a conversion letter asks; `none` is the undefined one. -/
def Field.layReal? (f : Field) (x : Option Binary64) (conversion : Char) : Option (List Char) :=
  let upper (cs : Option (List Char)) : Option (List Char) := cs.map (·.map Char.toUpper)
  match conversion with
  | 'f' => f.layFigure? Figure.fixed x
  | 'F' => upper (f.layFigure? Figure.fixed x)
  | 'e' => f.layFigure? Figure.scientific x
  | 'E' => upper (f.layFigure? Figure.scientific x)
  | 'g' => f.layFigure? Figure.general x
  | 'G' => upper (f.layFigure? Figure.general x)
  | _ => none

/-- The integer that is left of a number without its fraction. -/
def whole? : Identifier → Option Int
  | .real x => x.truncate?
  | x => x.toInt?

def Field.layValue? (f : Field) (value : Identifier) (conversion : Char) : Option (List Char) :=
  match conversion, value with
  | 's', x => some (f.layText x.display)
  | 'r', x => some (f.layText x.literal)
  | 'a', x => some (f.layText (Text.plain x.literal))
  | 'c', .text s => if s.toList.length = 1 then some (f.fill s.toList) else none
  | conversion, x =>
    if ['d', 'i', 'u'].contains conversion then (whole? x).bind (f.layNumber? 10 [])
    else if ['c', 'x', 'X', 'o'].contains conversion then
      x.toInt?.bind fun n => f.layInteger? n conversion
    else if x.isNumber then x.toReal.toOption.bind fun x => f.layReal? x conversion
    else none

/-- A text of which the beginning is known, laid out in its field, which must not ask for more of it. -/
def Field.layBeginning? (f : Field) (beginning : String) : Option (List Char) :=
  if f.precision.any (· ≤ beginning.length) then some (f.layText beginning) else none

def Field.lay? (f : Field) (conversion : Char) : Content → Option (List Char)
  | .whole value => f.layValue? value conversion
  | .beginning bare quoted => match conversion with
    | 's' => f.layBeginning? bare
    | 'r' => f.layBeginning? quoted
    | 'a' => f.layBeginning? (Text.plain quoted)
    | _ => none

/-! ### Reading a pattern -/

/-- Where the reading of a pattern stands. -/
inductive Stage where
  | plain
  | percent
  | key (letters : List Char)
  | flags (field : Field)
  | width (field : Field)
  | precision (field : Field)
  | conversion (field : Field)
  | broken

/-- A pattern that is being read. -/
structure Reading where
  stage : Stage := .plain
  /-- What has been laid out so far. -/
  out : List Char := []
  /-- Has no field been met so far? -/
  isFirst : Bool := true

namespace Reading

def goTo (d : Reading) (stage : Stage) : Reading := { d with stage }

def put (d : Reading) (cs : List Char) : Reading := { d with stage := .plain, out := d.out ++ cs }

/-- The largest size that a field may give, be it a width or a precision. -/
def greatestSize : Nat := 2147483647

def finishField (r : Record) (d : Reading) (f : Field) (c : Char) : Reading :=
  if greatestSize < max f.width (f.precision.getD 0) then d.goTo .broken
  else match (r.field? f.key).bind (f.lay? c) with
    | some cs => d.put cs
    | none => d.goTo .broken

/-- What follows the width and the precision of a field: one letter that tells a size may stand
before the conversion letter and means nothing. -/
def endField (r : Record) (d : Reading) (f : Field) (c : Char) : Reading :=
  if ['h', 'l', 'L'].contains c then d.goTo (.conversion f) else d.finishField r f c

def afterWidth (r : Record) (d : Reading) (f : Field) (c : Char) : Reading :=
  if c = '.' then d.goTo (.precision { f with precision := some 0 }) else d.endField r f c

def afterKey (r : Record) (d : Reading) (f : Field) (c : Char) : Reading :=
  if ['#', '0', '+', ' ', '-'].contains c then d.goTo (.flags { f with flags := c :: f.flags })
  else if c.isDigit then d.goTo (.width { f with width := c.toNat - 48 })
  else d.afterWidth r f c

def step (r : Record) (d : Reading) (c : Char) : Reading :=
  match d.stage with
  | .plain => if c = '%' then d.goTo .percent else d.put [c]
  | .percent =>
    if c = '%' then d.put ['%']
    else if c = '(' then { d with stage := .key [], isFirst := false }
    else if d.isFirst then { d with isFirst := false }.afterKey r {} c
    else d.goTo .broken
  | .key letters =>
    if c = ')' then d.goTo (.flags { key := some (String.ofList letters.reverse) })
    else d.goTo (.key (c :: letters))
  | .flags f => d.afterKey r f c
  | .width f =>
    if c.isDigit then d.goTo (.width { f with width := 10 * f.width + (c.toNat - 48) })
    else d.afterWidth r f c
  | .precision f =>
    if c.isDigit then
      d.goTo (.precision { f with precision := f.precision.map fun n => 10 * n + (c.toNat - 48) })
    else d.endField r f c
  | .conversion f => d.finishField r f c
  | .broken => d

end Reading

def render? (pattern : String) (r : Record) : Option String :=
  let d := pattern.toList.foldl (Reading.step r) {}
  match d.stage with
  | .plain => some (String.ofList d.out)
  | _ => none

/-! ### Patterns with fields -/

def isDigit (c : Char) : Bool := (Text.decimalValue? c).isSome

/-- A number of digits or a star, if there is one, and what follows. -/
def dropSize : List Char → Option (List Char)
  | '*' :: cs => some cs
  | cs => if (cs.takeWhile isDigit).isEmpty then none else some (cs.dropWhile isDigit)

/-- The letters that may end a field, in small letters, with those that have one as a small letter. -/
def conversions : List Char := "diouxefgcrsa%İıſ".toList

def startsWithField : List Char → Bool
  | '%' :: '(' :: cs =>
    match cs.takeWhile Text.isWord, cs.dropWhile Text.isWord with
    | _ :: _, ')' :: cs =>
      let cs := cs.dropWhile ['#', '0', '+', ' ', '-'].contains
      let cs := (dropSize cs).getD cs
      let cs := match cs with
        | '.' :: fraction => (dropSize fraction).getD cs
        | cs => cs
      match cs with
      | c :: _ => conversions.contains c.toLower
      | [] => false
    | _, _ => false
  | _ => false

def hasField : List Char → Bool
  | [] => false
  | c :: cs => startsWithField (c :: cs) || hasField cs

def isValid (pattern : String) : Bool := hasField pattern.toList

end Pattern

end MaximalCliques
