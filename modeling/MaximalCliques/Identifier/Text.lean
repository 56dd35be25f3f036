import MaximalCliques.Binary64.Decimal
import MaximalCliques.Identifier
import MaximalCliques.Text.Numeral
import MaximalCliques.Text.Quoted

/-!
# The text of an identifier

* **`Identifier.literal`** — the value as it stands inside a tuple or a sequence: a text is quoted.
* **`Identifier.display`** — the value as it stands in a message: a text is bare.
* **`Identifier.isWritable`** — a value without integers that have too many digits for a text.
* **`Identifier.kindName`** — the name of the value's kind.
-/

namespace MaximalCliques.Identifier

mutual

def literal : Identifier → String
  | absent => "None"
  | truth b => if b then "True" else "False"
  | integer n => toString n
  | real x => x.text
  | undefined _ => "nan"
  | text s => Text.quote s
  | tuple [x] => "(" ++ literal x ++ ",)"
  | tuple xs => "(" ++ literals xs ++ ")"
  | sequence xs => "[" ++ literals xs ++ "]"
  | mapping es => "\x7b" ++ entryLiterals es ++ "\x7d"

def literals : List Identifier → String
  | [] => ""
  | [x] => literal x
  | x :: xs => literal x ++ ", " ++ literals xs

def entryLiterals : List (String × Identifier) → String
  | [] => ""
  | [(k, x)] => Text.quote k ++ ": " ++ literal x
  | (k, x) :: es => Text.quote k ++ ": " ++ literal x ++ ", " ++ entryLiterals es

end

/-- A value in a message. -/
def display : Identifier → String
  | text s => s
  | x => x.literal

mutual

/-- Does the value have a text?  An integer has one if it has no more digits than a numeral may have. -/
def isWritable : Identifier → Bool
  | integer n => (Nat.toDigits 10 n.natAbs).length ≤ Text.digitLimit
  | tuple xs | sequence xs => areWritable xs
  | mapping es => entriesAreWritable es
  | _ => true

def areWritable : List Identifier → Bool
  | [] => true
  | x :: xs => isWritable x && areWritable xs

def entriesAreWritable : List (String × Identifier) → Bool
  | [] => true
  | (_, x) :: es => isWritable x && entriesAreWritable es

end

def kindName : Identifier → String
  | absent => "NoneType"
  | truth _ => "bool"
  | integer _ => "int"
  | real _ | undefined _ => "float"
  | text _ => "str"
  | tuple _ => "tuple"
  | sequence _ => "list"
  | mapping _ => "dict"

end MaximalCliques.Identifier
