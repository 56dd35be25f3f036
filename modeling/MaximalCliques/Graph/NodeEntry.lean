import MaximalCliques.Fault

/-!
# Entries of a node list

A node is listed alone or together with attributes.  A value that can be a key is a node; any other
value is read as a pair of a node and its attributes, and the attributes as pairs of a key and a
value.  The attributes are checked but not kept.

* **`Identifier.items?`** — the items of a value that has items; **`Identifier.pair`** if they are two.
* **`NodeEntry.node`** — the node that an entry lists.
-/

namespace MaximalCliques

/-- The items of a value that has items: those of a text are its characters, those of a mapping the texts
that it maps. -/
def Identifier.items? : Identifier → Option (List Identifier)
  | tuple xs | sequence xs => some xs
  | text s => some (s.toList.map fun c => text (String.singleton c))
  | mapping es => some (es.map fun (k, _) => text k)
  | _ => none

/-- The two items of a value. -/
def Identifier.pair (x : Identifier) : Except Fault (Identifier × Identifier) :=
  match x.items? with
  | some [a, b] => .ok (a, b)
  | some items => .error (.notAPair items.length)
  | none => .error (.notUnpacked x.kindName)

namespace NodeEntry

def checkAttribute (place : Nat) (detail : Identifier) : Except Fault Unit :=
  match detail.items? with
  | some [key, _] => key.requireKey
  | some items => .error (.attributeSize place items.length)
  | none => .error (.attributeWithoutItems place)

def checkAttributes (attributes : Identifier) : Except Fault Unit :=
  match attributes, attributes.items? with
  | .mapping _, _ => .ok ()
  | _, some items => items.zipIdx.forM fun (detail, place) => checkAttribute place detail
  | _, none => .error (.withoutItems attributes.kindName)

def node (entry : Identifier) : Except Fault Identifier :=
  match entry.keyless?, entry.items? with
  | none, _ => .ok entry
  | some _, some [x, attributes] => do
    x.requireKey
    checkAttributes attributes
    return x
  | some _, some items => .error (.notAPair items.length)
  | some part, none => .error (.keyless part.kindName)

theorem node_of_key {x : Identifier} (h : x.keyless? = none) : node x = .ok x := by
  simp [node, h]

end NodeEntry

end MaximalCliques
