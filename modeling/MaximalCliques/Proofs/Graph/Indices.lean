import MaximalCliques.Graph.IndexedNetwork
import MaximalCliques.Proofs.Graph.OracleBuilding

/-!
# Numbered nodes and their indices

The nodes of a network are different, so each of them has one index and each index below their number
belongs to one of them.  Whatever is no index, or no node, is refused.

* **`Numbering.place?_eq_some_iff`** — different names have the places where they stand.
* **`Identifier.isWithin_of_toInt?`**, **`Identifier.isWithin_cases`** — which values are indices.
* **`IndexedNetwork.Indexes`** — indices and nodes belong to each other.
* **`IndexedNetwork.indexes_of_different`** — so they do where the numbered names are different.
* **`Base.network_reports_iff`** — which positions a numbered network reports together.
-/

namespace MaximalCliques

/-! ### Different names -/

namespace Numbering

variable {names : List Identifier} {x y : Identifier} {k l : Nat}

/-- Two places of different names are one place if the names there spell one node. -/
theorem place_unique (hnames : names.Pairwise fun x y => (x == y) = false) (hx : names[k]? = some x)
    (hy : names[l]? = some y) (hxy : (x == y) = true) : k = l := by
  obtain ⟨hk, rfl⟩ := List.getElem?_eq_some_iff.1 hx
  obtain ⟨hl, rfl⟩ := List.getElem?_eq_some_iff.1 hy
  rcases Nat.lt_trichotomy k l with hlt | heq | hlt
  · rw [List.pairwise_iff_getElem.1 hnames k l hk hl hlt] at hxy
    cases hxy
  · exact heq
  · rw [BEq.comm, List.pairwise_iff_getElem.1 hnames l k hl hk hlt] at hxy
    cases hxy

/-- **Different names have the places where they stand**, in whatever spelling they are looked up. -/
theorem place?_eq_some_iff (hnames : names.Pairwise fun x y => (x == y) = false) :
    (ofNames names).place? x = some k ↔ ∃ y, names[k]? = some y ∧ (y == x) = true := by
  constructor
  · exact fun h => (place?_ofNames h).2
  · rintro ⟨y, hy, hyx⟩
    obtain ⟨l, hl⟩ := exists_place (Identifier.isIn_iff.2 ⟨y, List.mem_of_getElem? hy, hyx⟩)
    obtain ⟨-, z, hz, hzx⟩ := place?_ofNames hl
    rw [hl, place_unique hnames hy hz (BEq.trans hyx (BEq.symm hzx))]

end Numbering

/-! ### Values given as indices -/

namespace Comparison

variable {c : Comparison} {x : Identifier}

theorem holds_integer_left (c : Comparison) (m : Int) (x : Identifier) :
    c.holds (.integer m) x = c.holdsOfWhole (.integer m) x := by
  cases x <;> rfl

theorem holds_integer_right (c : Comparison) (m : Int) (x : Identifier) :
    c.holds x (.integer m) = c.holdsOfWhole x (.integer m) := by
  cases x <;> rfl

theorem holdsOfWhole_cases (c : Comparison) (x y : Identifier) :
    (∃ b, c.holdsOfWhole x y = .ok b) ∨
      c.holdsOfWhole x y = .error (.notOrdered c x.kindName y.kindName) := by
  unfold holdsOfWhole
  split
  · split
    · exact .inl ⟨_, rfl⟩
    · exact .inr rfl
  · exact .inr rfl

theorem holdsOfWhole_of_identity (c : Comparison) (n : Int) {x : Identifier} {m : Mark} {ms : List Mark}
    (hx : x.identity = m :: ms) (hm : m.isNumber = false) :
    c.holdsOfWhole (.integer n) x = .error (.notOrdered c "int" x.kindName) := by
  rw [holdsOfWhole, hx]
  cases ms with
  | nil => simp [Identifier.identity, hm, Identifier.kindName]
  | cons m' ms => rfl

end Comparison

namespace Identifier

variable {i : Identifier} {n b : Int}

theorem isWithin_of_toInt? (h : i.toInt? = some n) (b : Int) :
    i.isWithin b = .ok (decide (0 ≤ n ∧ n < b)) := by
  have hinteger : i.isWithin b = (Identifier.integer n).isWithin b := by
    cases i with
    | integer m => rw [Option.some.inj h]
    | truth t =>
      rw [← Option.some.inj h]
      cases t <;> rfl
    | _ => cases h
  rw [hinteger, isWithin, Comparison.notAbove_holds_integer, Comparison.below_holds_integer]
  by_cases h0 : 0 ≤ n <;> simp [h0, bind, Except.bind, pure, Except.pure]

/-- Any value is within a bound or not, or has no order with numbers. -/
theorem isWithin_cases (i : Identifier) (b : Int) :
    (∃ within, i.isWithin b = .ok within) ∨
      ∃ c left right, i.isWithin b = .error (.notOrdered c left right) := by
  unfold isWithin
  rw [Comparison.holds_integer_left, Comparison.holds_integer_right]
  rcases Comparison.holdsOfWhole_cases .notAbove (.integer 0) i with ⟨above, h⟩ | h
  · rw [h]
    cases above with
    | false => exact .inl ⟨false, rfl⟩
    | true =>
      rcases Comparison.holdsOfWhole_cases .below i (.integer b) with ⟨below, h'⟩ | h'
      · exact .inl ⟨below, h'⟩
      · exact .inr ⟨_, _, _, h'⟩
  · rw [h]
    exact .inr ⟨_, _, _, rfl⟩

/-- A value that is no integer and compares with integers has a text. -/
theorem isWritable_of_isWithin (h : i.toInt? = none) {within : Bool} (hwithin : i.isWithin b = .ok within) :
    i.isWritable = true := by
  rw [isWithin, Comparison.holds_integer_left] at hwithin
  cases i with
  | real x => rfl
  | undefined k => rfl
  | integer m => cases h
  | truth t => cases h
  | _ =>
    rw [Comparison.holdsOfWhole_of_identity .notAbove 0 rfl rfl] at hwithin
    cases hwithin

end Identifier

/-! ### Indices and nodes -/

namespace IndexedNetwork

variable {net : IndexedNetwork} {names : List Identifier}

/-- **Indices and nodes belong to each other.**  The nodes are the names, as many as there are indices.  A
value has the index at which one of its spellings stands among the names, and is refused if there is none.
An index, which a truth value may stand for, belongs to the node that stands there; every other integer is
outside the index space, and whatever is no integer is no index.  What is refused is named if it has a
text. -/
structure Indexes (net : IndexedNetwork) (names : List Identifier) : Prop where
  nodes : net.nodes = names
  bound : net.bound = names.length
  index : ∀ (x : Identifier) (i : Int),
    net.index x = .ok i ↔ ∃ (k : Nat) (y : Identifier), i = k ∧ names[k]? = some y ∧ (y == x) = true
  unknown : ∀ x : Identifier, x.isIn names = false →
    ∃ e, net.index x = .error e ∧ (x.isWritable = true → e = .unknownNode x)
  node : ∀ i x : Identifier,
    net.nodeAt i = .ok x ↔ ∃ k : Nat, i.toInt? = some (k : Int) ∧ names[k]? = some x
  outside : ∀ (i : Identifier) (n : Int), i.toInt? = some n → ¬(0 ≤ n ∧ n < names.length) →
    ∃ e, net.nodeAt i = .error e ∧ (i.isWritable = true → e = .indexOutOfRange i names.length)
  other : ∀ i : Identifier, i.toInt? = none → ∃ e, net.nodeAt i = .error e ∧
    (e = .indexOutOfRange i names.length ∨ e.families = [.kind])

theorem bound_of_names (hnumbering : net.numbering = .ofNames names) : net.bound = names.length := by
  rw [bound, hnumbering, Numbering.size_ofNames]

theorem nodeAt_of_toInt?_none (net : IndexedNetwork) {i : Identifier} (h : i.toInt? = none) :
    ∃ e, net.nodeAt i = .error e ∧ (e = .indexOutOfRange i net.bound ∨ e.families = [.kind]) := by
  unfold nodeAt
  rcases i.isWithin_cases net.bound with ⟨within, hwithin⟩ | ⟨c, left, right, hwithin⟩
  · rw [hwithin]
    cases within with
    | false =>
      have hwritable := Identifier.isWritable_of_isWithin h hwithin
      exact ⟨_, rfl, .inl (Fault.raised_eq_of_shown rfl hwritable)⟩
    | true => exact ⟨.notAPlace "list" i.kindName, by simp [h, bind, Except.bind, throw, throwThe,
        MonadExceptOf.throw], .inr rfl⟩
  · rw [hwithin]
    exact ⟨_, rfl, .inr rfl⟩

theorem nodeAt_of_getElem? (hnumbering : net.numbering = .ofNames names) {i x : Identifier} {k : Nat}
    (hi : i.toInt? = some (k : Int)) (hx : names[k]? = some x) : net.nodeAt i = .ok x := by
  have hlt := (List.getElem?_eq_some_iff.1 hx).1
  have hname : net.numbering.name? k = some x := by
    rw [hnumbering, Numbering.name?, if_neg (by omega)]
    simpa [Numbering.ofNames] using hx
  unfold nodeAt
  rw [Identifier.isWithin_of_toInt? hi, bound_of_names hnumbering]
  simp [hlt, hi, hname, bind, Except.bind, pure, Except.pure]

theorem nodeAt_outside {i : Identifier} {n : Int} (hi : i.toInt? = some n)
    (hout : ¬(0 ≤ n ∧ n < net.bound)) :
    net.nodeAt i = .error (Fault.indexOutOfRange i net.bound).raised := by
  unfold nodeAt
  rw [Identifier.isWithin_of_toInt? hi]
  simp [hout, bind, Except.bind, throw, throwThe, MonadExceptOf.throw]

section Different

variable (hnumbering : net.numbering = .ofNames names)
variable (hnames : names.Pairwise fun x y => (x == y) = false)
include hnumbering

include hnames in
/-- A value has the index at which one of its spellings stands among the names. -/
theorem index_eq_ok_iff {x : Identifier} {i : Int} : net.index x = .ok i ↔
    ∃ (k : Nat) (y : Identifier), i = k ∧ names[k]? = some y ∧ (y == x) = true := by
  unfold index
  rw [hnumbering]
  cases hplace : (Numbering.ofNames names).place? x with
  | some k =>
    obtain ⟨y, hy, hyx⟩ := (Numbering.place?_eq_some_iff hnames).1 hplace
    constructor
    · rintro ⟨⟩
      exact ⟨k, y, rfl, hy, hyx⟩
    · rintro ⟨l, z, rfl, hz, hzx⟩
      rw [Numbering.place_unique hnames hy hz (BEq.trans hyx (BEq.symm hzx))]
  | none =>
    constructor
    · rintro ⟨⟩
    · rintro ⟨l, z, -, hz, hzx⟩
      rw [(Numbering.place?_eq_some_iff hnames).2 ⟨z, hz, hzx⟩] at hplace
      cases hplace

/-- An integer below the number of the names has the name that stands there; nothing else has a node. -/
theorem nodeAt_eq_ok_iff {i x : Identifier} :
    net.nodeAt i = .ok x ↔ ∃ k : Nat, i.toInt? = some (k : Int) ∧ names[k]? = some x := by
  refine ⟨fun h => ?_, fun ⟨k, hi, hx⟩ => nodeAt_of_getElem? hnumbering hi hx⟩
  cases hi : i.toInt? with
  | none =>
    obtain ⟨e, he, -⟩ := net.nodeAt_of_toInt?_none hi
    rw [he] at h
    cases h
  | some n =>
    by_cases hin : 0 ≤ n ∧ n < net.bound
    · have hn : ((n.toNat : Nat) : Int) = n := Int.toNat_of_nonneg hin.1
      have hlt : n.toNat < names.length := by
        rw [bound_of_names hnumbering] at hin
        omega
      rw [← hn] at hi
      rw [nodeAt_of_getElem? hnumbering hi (List.getElem?_eq_getElem hlt)] at h
      exact ⟨n.toNat, by rw [hn], by rw [List.getElem?_eq_getElem hlt, Except.ok.inj h]⟩
    · rw [nodeAt_outside hi hin] at h
      cases h

include hnames in
/-- **Indices and nodes belong to each other** where the numbered names are different. -/
theorem indexes_of_different : net.Indexes names where
  nodes := by rw [nodes, hnumbering, Numbering.ofNames, List.toList_toArray]
  bound := bound_of_names hnumbering
  index _ _ := index_eq_ok_iff hnumbering hnames
  unknown x hx := by
    refine ⟨_, by rw [index, hnumbering, Numbering.place?_eq_none hx], fun hwritable => ?_⟩
    exact Fault.raised_eq_of_shown rfl hwritable
  node _ _ := nodeAt_eq_ok_iff hnumbering
  outside i n hi hout := by
    rw [← bound_of_names hnumbering] at hout ⊢
    exact ⟨_, nodeAt_outside hi hout, fun hwritable =>
      Fault.raised_eq_of_shown rfl hwritable⟩
  other i hi := by
    rw [← bound_of_names hnumbering]
    exact net.nodeAt_of_toInt?_none hi

end Different

end IndexedNetwork

/-! ### What is reported of numbered nodes -/

section Numbered

variable {w : World} {place : Nat} {net : IndexedNetwork} (hnet : w.networks[place]? = some net)
variable {names : List Identifier} (hnumbering : net.numbering = .ofNames names)
include hnet hnumbering

variable (hnames : names.Pairwise fun x y => (x == y) = false)
include hnames

/-- The position of a value is where one of its spellings stands among the names. -/
theorem Base.network_position_iff {x : Identifier} (hx : x.isIn names = true) {k : Nat} :
    ((Base.network place).access w).position x = k ↔ ∃ y, names[k]? = some y ∧ (y == x) = true := by
  obtain ⟨l, hl⟩ := Numbering.exists_place hx
  rw [Access.position, network_index hnet hnumbering hl, ← Numbering.place?_eq_some_iff hnames, hl]
  show (l : Int).toNat = k ↔ some l = some k
  rw [Int.toNat_natCast, Option.some_inj]

/-- **Positions are reported together** if the links lead from the one name to the other. -/
theorem Base.network_reports_iff (hkeys : ∀ x ∈ names, x.keyless? = none)
    (hclosed : ∀ x ∈ names, ∀ y ∈ net.network.successors x, y.isIn names = true) {i j : Nat} :
    ((Base.network place).access w).Reports w i j ↔ ∃ x y, names[i]? = some x ∧ names[j]? = some y ∧
      y.isIn (net.network.successors x) = true := by
  obtain ⟨hlisted, hreported⟩ := network_names hnet hnumbering hkeys
  have hposition := fun x hx => @network_position_iff w place net hnet names hnumbering hnames x hx
  constructor
  · rintro ⟨u, hu, v, hv, hi, hj⟩
    rw [hlisted] at hu
    rw [hreported u hu] at hv
    obtain ⟨x, hx, hxu⟩ := (hposition u (Identifier.isIn_of_mem hu)).1 hi
    obtain ⟨y, hy, hyv⟩ := (hposition v (hclosed u hu v hv)).1 hj
    refine ⟨x, y, hx, hy, ?_⟩
    rw [net.network.successors_congr hxu, Identifier.isIn_congr hyv]
    exact Identifier.isIn_of_mem hv
  · rintro ⟨x, y, hx, hy, hlink⟩
    obtain ⟨v, hv, hvy⟩ := Identifier.isIn_iff.1 hlink
    have hmem := List.mem_of_getElem? hx
    refine ⟨x, by rwa [hlisted], v, by rwa [hreported x hmem], ?_, ?_⟩
    · exact (hposition x (Identifier.isIn_of_mem hmem)).2 ⟨x, hx, BEq.rfl⟩
    · exact (hposition v (hclosed x hmem v hv)).2 ⟨y, hy, BEq.symm hvy⟩

end Numbered

end MaximalCliques
