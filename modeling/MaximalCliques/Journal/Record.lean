import MaximalCliques.Journal.Level

/-!
# Records

* **`Record`** — what is recorded.
* **`Record.field?`** — the content of a record's field.
* **`Record.listing`** — the record written out, field by field.

When and where a record is made is not kept, so that of some fields no more than the beginning is known.
-/

namespace MaximalCliques

structure Record where
  channel : String
  level : Level
  /-- What is said, with marks where arguments belong. -/
  subject : Identifier
  arguments : List Identifier := []
  /-- What is said, with the arguments in their places. -/
  message : String := subject.display

inductive Content where
  | whole (value : Identifier)
  /-- The beginning of the content, as it stands in a message and inside a compound value. -/
  | beginning (bare quoted : String)

namespace Record

/-- The fields that a record is listed with, in order. -/
def listed (r : Record) : List (String × Identifier) :=
  [("name", .text r.channel), ("msg", r.subject), ("args", .tuple r.arguments),
   ("levelname", .text r.level.name), ("levelno", r.level.toIdentifier)]

def common : List (String × Identifier) :=
  [("exc_info", .absent), ("exc_text", .absent), ("stack_info", .absent),
   ("threadName", .text "MainThread"), ("processName", .text "MainProcess")]

/-- The fields that tell when and where a record is made. -/
def circumstances : List (String × Content) :=
  ["pathname", "filename", "module", "funcName"].map (fun key => (key, .beginning "" "'")) ++
  ["lineno", "created", "msecs", "relativeCreated", "thread", "process"].map
    (fun key => (key, .beginning "" "")) ++
  [("asctime", .beginning "20" "'20")]

/-- A record written out, up to the place that it was made at. -/
def listing (r : Record) : String :=
  "\x7b" ++ String.join (r.listed.map fun (key, content) =>
    Text.quote key ++ ": " ++ content.literal ++ ", ") ++ "'pathname': '"

/-- The content of a field; a field without a key stands for the record written out. -/
def field? (r : Record) : Option String → Option Content
  | none => some (.beginning r.listing r.listing)
  | some "message" => some (.whole (.text r.message))
  | some key => match (r.listed ++ common).lookup key with
    | some value => some (.whole value)
    | none => circumstances.lookup key

end Record

end MaximalCliques
