import MaximalCliques.Identifier.Text
import MaximalCliques.Text.MemorySize

/-!
# What can go wrong

Every refusal of the library is one of the causes below.

* **`Comparison`** — the ways in which two values are compared for their order.
* **`Fault`** — the causes, each with what it is about.
* **`Fault.message`** — the text of a cause.
* **`Fault.families`** — the families of faults that a cause belongs to.
* **`Fault.raised`** — what is raised for a cause: a cause whose text cannot be written is replaced.
-/

namespace MaximalCliques

/-- A way to compare two values for their order. -/
inductive Comparison where
  | below
  | notAbove
  | above
deriving DecidableEq, Repr

def Comparison.sign : Comparison → String
  | below => "<"
  | notAbove => "<="
  | above => ">"

/-- A cause of refusal. -/
inductive Fault where
  /-- The identifier names no node, or the index belongs to none. -/
  | unknownNode (node : Identifier)
  /-- The same, reported in the caller's own words. -/
  | rejectedNode (node : Identifier) (report : String)
  /-- The node's index lies outside the index space. -/
  | nodeOutOfRange (node : Identifier) (index bound : Int)
  /-- The index lies outside the index space. -/
  | indexOutOfRange (index : Identifier) (bound : Int)
  /-- The value cannot be read as an index. -/
  | notAnIndex (node : Identifier)
  /-- An infinity cannot be read as an index. -/
  | infiniteIndex
  /-- The graph is too large for an adjacency oracle. -/
  | capacityExceeded (bound limit : Identifier)
  /-- An index space cannot have this size. -/
  | negativeBound
  /-- The enumeration was told to stop after these cliques. -/
  | cancelled (found : List (List Identifier))
  /-- A failure of the library in the caller's own words. -/
  | failure (report : String)
  | negativeSize (size : Identifier)
  /-- The value cannot be the number of marks. -/
  | notASize (value : Identifier)
  /-- A truth value stands where a length is expected. -/
  | truthAsLength
  /-- A value of this kind stands where an integer is expected. -/
  | notAnInteger (kind : String)
  /-- A text that is no numeral stands where an integer is expected. -/
  | notANumeral (text : Identifier)
  /-- A value of this kind stands where an entry of a table is expected. -/
  | notAnEntry (kind : String)
  /-- An undefined number stands where an integer is expected. -/
  | undefinedInteger
  /-- More marks than there are positions in memory. -/
  | tooManyMarks
  /-- More pairs than there are positions in memory. -/
  | tooManyPairs
  /-- There is not as much memory as a table of this shape takes. -/
  | outOfMemory (shape : List Nat)
  /-- A value that is no integer stands for a position in a table. -/
  | notAPosition
  /-- The table has no such position along one of its axes. -/
  | outsideTable (index axis size : Nat)
  | notSquare (shape : List Nat)
  /-- More than one length of a shape is left open. -/
  | openLengths
  /-- A shape with so many lengths. -/
  | tooManyLengths (count : Nat)
  /-- So many entries do not fill this shape; a negative length is one left open. -/
  | wrongEntries (size : Nat) (shape : List Int)
  /-- The entry takes more room than there is for one. -/
  | wideEntry
  /-- Blocks of these shapes cannot be compared entry by entry. -/
  | unfitShapes (left right : List Nat)
  /-- The items are of one shape no further than this. -/
  | unevenItems (shape : List Nat)
  /-- A single answer is asked for where there is none. -/
  | noAnswer
  /-- A single answer is asked for where there are several. -/
  | severalAnswers
  | noWorkers
  | absentNode
  /-- The value cannot be a key. -/
  | keyless (kind : String)
  /-- An entry of a node list is neither a node nor a pair. -/
  | notAPair (size : Nat)
  /-- A value of this kind is given as a pair. -/
  | notUnpacked (kind : String)
  /-- A value of this kind has no items. -/
  | withoutItems (kind : String)
  /-- A value of this kind has no number of items. -/
  | withoutSize (kind : String)
  /-- A thing of this kind does not deliver items. -/
  | notDelivering (kind : String)
  /-- The attribute at this place has no items. -/
  | attributeWithoutItems (place : Nat)
  /-- The attribute at this place has not two items. -/
  | attributeSize (place size : Nat)
  | notAFilter (kind : String)
  | notANetwork (kind : String)
  | notADirection (value : Identifier)
  /-- The operation has no argument of this name. -/
  | unexpectedArgument (operation name : String)
  | invalidFormat (pattern : String)
  /-- No level has this name. -/
  | unknownLevel (name : String)
  /-- The value is neither a level nor the name of one. -/
  | notALevel (value : Identifier)
  /-- A value that is no text is given as the name of a channel. -/
  | channelName
  /-- A value of this kind is given as a pattern. -/
  | notAPattern (kind : String)
  /-- Values of these kinds have no order. -/
  | notOrdered (comparison : Comparison) (left right : String)
  /-- A value of one kind has no residue by one of another. -/
  | noResidue (left right : String)
  /-- The modulus is zero; `isReal` tells whether the division is one of reals. -/
  | zeroModulus (isReal : Bool)
  /-- A value of one kind is not counted on by one of another. -/
  | noSum (left right : String)
  /-- A number is added to a value of this kind, which can only be continued. -/
  | notContinued (kind : String)
  /-- An integer is larger than all reals. -/
  | beyondReals
  /-- Neighbours were added while they were delivered. -/
  | changedMeanwhile
  /-- A value of this kind has no places. -/
  | withoutPlaces (kind : String)
  /-- A value of this kind is given as a place in one of another. -/
  | notAPlace (whole kind : String)
  /-- A mapping has no entry for the value. -/
  | withoutEntry (value : Identifier)
  /-- A value of this kind contains nothing. -/
  | containsNothing (kind : String)
  /-- A value of this kind is looked for in a text. -/
  | notAText (kind : String)
  /-- A thing of this kind does not offer the operation. -/
  | lacking (kind operation : String)
  /-- A value of this kind stands where an operation is expected. -/
  | notAnOperation (kind : String)
  /-- The operation wants further arguments. -/
  | missingArguments (operation : String) (arguments : List String)
  /-- The operation takes so many arguments, the thing that has it included, and not so many. -/
  | argumentCount (operation : String) (least most given : Nat)
  /-- The name was given to nothing. -/
  | unknownName (name : String)
  /-- There is nothing at the place. -/
  | unavailable (name : String)
  /-- The text of a cause cannot be written, since an integer in it has too many digits. -/
  | unwritable
deriving Inhabited, Repr

/-- The families of faults, from the general to the particular, then the general kinds of error. -/
inductive Family where
  | cliqueFault
  | invalidNode
  | capacity
  | cancellation
  | lookup
  | value
  | kind
  | overflow
  | position
  | division
  | memory
  | operation
  | iteration
deriving DecidableEq, Repr

namespace Fault

def range (bound : Int) : String := s!"[0, {bound})"

def names (xs : List String) : String :=
  match xs.map fun x => "'" ++ x ++ "'" with
  | [x, y] => x ++ " and " ++ y
  | xs => ", ".intercalate xs

def lengths (shape : List Nat) : String :=
  (Identifier.tuple (shape.map fun (n : Nat) => .integer n)).literal

/-- The lengths of a shape that is asked for.  Those left open are marked, the leading ones left
out. -/
def askedLengths (shape : List Int) : String :=
  let text (n : Int) : String := if n < 0 then "newaxis" else toString n
  match shape with
  | [n] => if n < 0 then "()" else s!"({n},)"
  | shape => "(" ++ ",".intercalate ((shape.dropWhile (· < 0)).map text) ++ ")"

def message : Fault → String
  | unknownNode node => "Node '" ++ node.display ++ "' is not part of this graph."
  | rejectedNode _ report => report
  | nodeOutOfRange node index bound =>
    s!"Index {index} of node '" ++ node.display ++ "' is outside " ++ range bound ++ "."
  | indexOutOfRange index bound => "Index " ++ index.display ++ " is outside " ++ range bound ++ "."
  | notAnIndex node => "Node '" ++ node.display ++ "' is not an integer index."
  | infiniteIndex => "cannot convert float infinity to integer"
  | capacityExceeded bound limit => "Graph index space of " ++ bound.display ++
    " nodes exceeds the oracle limit of " ++ limit.display ++ " nodes."
  | negativeBound => "negative dimensions are not allowed"
  | cancelled found => s!"Clique enumeration cancelled after {found.length} cliques."
  | failure report => report
  | negativeSize size => "Bit set size must be non-negative, got " ++ size.display ++ "."
  | notASize value =>
    "expected a sequence of integers or a single integer, got '" ++ value.literal ++ "'"
  | truthAsLength => "an integer is required"
  | notAnInteger kind => "'" ++ kind ++ "' object cannot be interpreted as an integer"
  | notANumeral text => "invalid literal for int() with base 10: " ++ text.literal
  | notAnEntry kind =>
    "int() argument must be a string, a bytes-like object or a real number, not '" ++ kind ++ "'"
  | undefinedInteger => "cannot convert float NaN to integer"
  | tooManyMarks => "Maximum allowed dimension exceeded"
  | tooManyPairs => "array is too big; `arr.size * arr.dtype.itemsize` is larger than the maximum " ++
    "possible size."
  | outOfMemory shape =>
    "Unable to allocate " ++ Text.memorySize (shape.foldl (· * ·) 1) ++ " for an array with shape " ++
    lengths shape ++ " and data type bool"
  | notAPosition => "only integers, slices (`:`), ellipsis (`...`), numpy.newaxis (`None`) and " ++
    "integer or boolean arrays are valid indices"
  | outsideTable index axis size =>
    s!"index {index} is out of bounds for axis {axis} with size {size}"
  | notSquare shape => "Adjacency matrix must be square, got " ++ lengths shape ++ "."
  | openLengths => "can only specify one unknown dimension"
  | tooManyLengths count =>
    s!"maximum supported dimension for an ndarray is currently 64, found {count}"
  | wrongEntries size shape =>
    s!"cannot reshape array of size {size} into shape " ++ askedLengths shape
  | wideEntry => "Python int too large to convert to C long"
  | unfitShapes left right => "operands could not be broadcast together with shapes " ++
    String.join ([left, right].map fun shape => askedLengths (shape.map Int.ofNat) ++ " ")
  | unevenItems shape => "setting an array element with a sequence. The requested array has an " ++
    s!"inhomogeneous shape after {shape.length} dimensions. The detected shape was " ++
    lengths shape ++ " + inhomogeneous part."
  | noAnswer => "The truth value of an empty array is ambiguous. Use " ++
    "`array.size > 0` to check that an array is not empty."
  | severalAnswers => "The truth value of an array with more than one element is ambiguous. " ++
    "Use a.any() or a.all()"
  | noWorkers => "max_workers must be greater than 0"
  | absentNode => "None cannot be a node"
  | keyless kind => "unhashable type: '" ++ kind ++ "'"
  | notAPair size =>
    if size < 2 then s!"not enough values to unpack (expected 2, got {size})"
    else "too many values to unpack (expected 2)"
  | notUnpacked kind => "cannot unpack non-iterable " ++ kind ++ " object"
  | withoutItems kind => "'" ++ kind ++ "' object is not iterable"
  | withoutSize kind => "object of type '" ++ kind ++ "' has no len()"
  | notDelivering kind => "'" ++ kind ++ "' object is not an iterator"
  | attributeWithoutItems place =>
    s!"cannot convert dictionary update sequence element #{place} to a sequence"
  | attributeSize place size =>
    s!"dictionary update sequence element #{place} has length {size}; 2 is required"
  | notAFilter kind => "Expected a NodeFilter, FixedBitSet, set or callable, got " ++ kind
  | notANetwork kind => "Expected NetworkX graph, got " ++ kind
  | notADirection value => value.literal ++ " is not a valid Direction"
  | unexpectedArgument operation name =>
    operation ++ "() got an unexpected keyword argument '" ++ name ++ "'"
  | invalidFormat pattern => "Invalid format '" ++ pattern ++ "' for '%' style"
  | unknownLevel name => "Unknown level: " ++ Text.quote name
  | notALevel value => "Level not an integer or a valid string: " ++ value.literal
  | channelName => "A logger name must be a string"
  | notAPattern kind => "expected string or bytes-like object, got '" ++ kind ++ "'"
  | notOrdered comparison left right =>
    "'" ++ comparison.sign ++ "' not supported between instances of " ++ names [left, right]
  | noResidue left right =>
    if left = "str" then "not all arguments converted during string formatting"
    else "unsupported operand type(s) for %: " ++ names [left, right]
  | zeroModulus isReal => if isReal then "float modulo" else "integer modulo by zero"
  | noSum left right => "unsupported operand type(s) for +=: " ++ names [left, right]
  | notContinued kind => "can only concatenate " ++ kind ++ " (not \"int\") to " ++ kind
  | beyondReals => "int too large to convert to float"
  | changedMeanwhile => "dictionary changed size during iteration"
  | withoutPlaces kind => "'" ++ kind ++ "' object is not subscriptable"
  | notAPlace whole kind =>
    if whole = "str" then "string indices must be integers, not '" ++ kind ++ "'"
    else whole ++ " indices must be integers or slices, not " ++ kind
  | withoutEntry value => value.literal
  | containsNothing kind => "argument of type '" ++ kind ++ "' is not iterable"
  | notAText kind => "'in <string>' requires string as left operand, not " ++ kind
  | lacking kind operation => "'" ++ kind ++ "' object has no attribute '" ++ operation ++ "'"
  | notAnOperation kind => "'" ++ kind ++ "' object is not callable"
  | missingArguments operation arguments =>
    operation ++ s!"() missing {arguments.length} required positional argument" ++
      (if arguments.length = 1 then ": " else "s: ") ++ names arguments
  | argumentCount operation least most given =>
    operation ++ "() takes " ++ (if least = most then toString most else s!"from {least} to {most}") ++
      s!" positional arguments but {given} were given"
  | unknownName name => Text.quote name
  | unavailable name => "'" ++ name ++ "' does not answer this request"
  | unwritable => s!"Exceeds the limit ({Text.digitLimit} digits) for integer string conversion; use " ++
    "sys.set_int_max_str_digits() to increase the limit"

def families : Fault → List Family
  | unknownNode _ | rejectedNode .. | nodeOutOfRange .. | indexOutOfRange .. | notAnIndex _ =>
    [.cliqueFault, .invalidNode, .lookup]
  | capacityExceeded .. => [.cliqueFault, .capacity, .value]
  | cancelled _ => [.cliqueFault, .cancellation]
  | failure _ => [.cliqueFault]
  | infiniteIndex | wideEntry | beyondReals => [.overflow]
  | outsideTable .. | notAPosition => [.position]
  | zeroModulus _ => [.division]
  | outOfMemory _ => [.memory]
  | lacking .. => [.operation]
  | unknownName _ | withoutEntry _ => [.lookup]
  | changedMeanwhile => [.iteration]
  | negativeBound | negativeSize _ | tooManyMarks | tooManyPairs | notSquare _ | openLengths
  | tooManyLengths _ | wrongEntries .. | unfitShapes .. | unevenItems _ | noAnswer | severalAnswers
  | noWorkers | absentNode | notAPair _ | attributeSize .. | notADirection _ | invalidFormat _
  | unknownLevel _ | notANumeral _ | undefinedInteger | unwritable => [.value]
  | keyless _ | notUnpacked _ | withoutItems _ | withoutSize _ | notDelivering _
  | attributeWithoutItems _ | notAFilter _ | notANetwork _ | unexpectedArgument .. | notALevel _
  | channelName | notAPattern _ | notOrdered .. | noResidue .. | noSum .. | notContinued _
  | notASize _ | truthAsLength | notAnInteger _ | notAnEntry _ | withoutPlaces _ | notAPlace ..
  | containsNothing _ | notAText _ | notAnOperation _ | missingArguments .. | argumentCount ..
  | unavailable _ => [.kind]

/-- The refusal of an operation by a thing of this kind, which may have something else of that name. -/
def refusal (kind operation : String) : Fault :=
  match kind, operation with
  | "AdjacencyMatrix", "node_bound" => notAnOperation "int"
  | "AdjacencyMatrix", "is_adjacent" => argumentCount (kind ++ "." ++ operation) 3 3 4
  | "NxGraph", "is_adjacent" => missingArguments (kind ++ "." ++ operation) ["b"]
  | kind, operation => lacking kind operation

/-- The fault of an unknown node, in the caller's own words if there are any. -/
def invalidNode (node : Identifier) (report : Option String) : Fault :=
  match report with
  | none | some "" => unknownNode node
  | some report => rejectedNode node report

/-- The values whose texts are part of the text of a fault. -/
def shown : Fault → List Identifier
  | unknownNode node | notAnIndex node => [node]
  | nodeOutOfRange node index _ => [.integer index, node]
  | indexOutOfRange index _ => [index]
  | capacityExceeded bound limit => [bound, limit]
  | negativeSize value | notASize value | notADirection value | notALevel value => [value]
  | _ => []

/-- What is raised for a cause: itself, if its text can be written. -/
def raised (e : Fault) : Fault := if e.shown.all Identifier.isWritable then e else unwritable

/-- The node or index that an invalid-node fault is about. -/
def node? : Fault → Option Identifier
  | unknownNode node | rejectedNode node _ | nodeOutOfRange node .. | notAnIndex node => some node
  | indexOutOfRange index _ => some index
  | _ => none

end Fault

namespace Identifier

def requireKey (x : Identifier) : Except Fault Unit :=
  match x.keyless? with
  | some part => .error (.keyless part.kindName)
  | none => .ok ()

end Identifier

namespace Fault

/-- The fault of an unknown node, made of the node and of the caller's own words if there are any. -/
def ofNode : List Identifier → Except Fault Fault
  | [node] => .ok (raised (.invalidNode node none))
  | [node, report] =>
    .ok (raised (.invalidNode node (if report.isTruthy then some report.display else none)))
  | [] => .error (.missingArguments "InvalidNodeId.__init__" ["node"])
  | args => .error (.argumentCount "InvalidNodeId.__init__" 2 3 (args.length + 1))

/-- The fault of too large an index space, made of its bound and the limit. -/
def ofSizes : List Identifier → Except Fault Fault
  | [bound, limit] => .ok (raised (.capacityExceeded bound limit))
  | [_] => .error (.missingArguments "CapacityExceeded.__init__" ["limit"])
  | [] => .error (.missingArguments "CapacityExceeded.__init__" ["node_bound", "limit"])
  | args => .error (.argumentCount "CapacityExceeded.__init__" 3 3 (args.length + 1))

/-- A failure in the caller's own words; several reports stand as a tuple. -/
def ofReports : List Identifier → Fault
  | [] => .failure ""
  | [report] => .failure report.display
  | reports => .failure (Identifier.tuple reports).literal

end Fault

/-- The fault of an enumeration that was stopped after a set of cliques, each a set of nodes. -/
def Fault.stoppedAfter (cliques : List (List Identifier)) : Except Fault Fault := do
  let sets ← cliques.mapM fun c => do
    c.forM Identifier.requireKey
    return Identifier.distinct c
  return .cancelled (sets.foldl (fun kept c =>
    if kept.any (Identifier.sameSet c) then kept else kept ++ [c]) [])

end MaximalCliques
