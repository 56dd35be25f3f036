import MaximalCliques.Proofs.Graph.Orderly
import MaximalCliques.Session.Journaled

/-!
# What does not depend on the journal

An enumeration makes a graph and searches it, and reads the journal to tell which of its reports are kept.
It does not change the journal, and two sessions with different journals go through it alike.

* **`Action.Alike`** — two steps of a session, taken with one journal and with another: they are answered
  alike and leave the same session, but for the journals, which stay as they are.
* **`Action.alike_make`** — making a graph does not depend on the journal.
* **`Action.alike_run`** — an enumeration depends on it for the reports that are kept at most.
-/

namespace MaximalCliques

def Session.withJournal (s : Session) (j : Journal) : Session := { s with journal := j }

/-- Whether two answers are alike: both are refusals, and the same, or the values are related. -/
def Except.Alike {α β : Type} (R : α → β → Prop) : Except Fault α → Except Fault β → Prop
  | .ok a, .ok b => R a b
  | .error e, .error f => e = f
  | _, _ => False

namespace Action

variable {α β γ δ : Type} {j k : Journal} {R : α → β → Prop} {S : γ → δ → Prop}

/-- **Steps alike**: from sessions that differ in their journals only, which are `j` and `k`, two steps get
answers that are related and lead to sessions that still differ in these journals only. -/
def Alike (j k : Journal) (R : α → β → Prop) (q : Action α) (r : Action β) : Prop :=
  ∀ s : Session, ∃ u : Session, (q.run (s.withJournal j)).2 = u.withJournal j ∧
    (r.run (s.withJournal k)).2 = u.withJournal k ∧
    Except.Alike R (q.run (s.withJournal j)).1 (r.run (s.withJournal k)).1

theorem alike_pure {a : α} {b : β} (h : R a b) : Alike j k R (pure a) (pure b) :=
  fun s => ⟨s, rfl, rfl, h⟩

theorem alike_throw (e : Fault) : Alike j k R (throw e) (throw e) := fun s => ⟨s, rfl, rfl, rfl⟩

theorem alike_ofExcept (answer : Except Fault α) : Alike j k Eq (ofExcept answer) (ofExcept answer) := by
  cases answer with
  | ok a => exact alike_pure rfl
  | error e => exact alike_throw e

theorem alike_modifyWorld (change : World → World) :
    Alike j k Eq (modifyWorld change) (modifyWorld change) :=
  fun s => ⟨{ s with world := change s.world }, rfl, rfl, rfl⟩

theorem alike_freshSerial : Alike j k Eq freshSerial freshSerial :=
  fun s => ⟨{ s with serial := s.serial + 1 }, rfl, rfl, rfl⟩

theorem alike_get : Alike j k (fun s u => ∃ v : Session, s = v.withJournal j ∧ u = v.withJournal k) get get :=
  fun s => ⟨s, rfl, rfl, s, rfl, rfl⟩

theorem alike_set (s : Session) : Alike j k Eq (set (s.withJournal j)) (set (s.withJournal k)) :=
  fun _ => ⟨s, rfl, rfl, rfl⟩

theorem Alike.bind {q : Action α} {r : Action β} {f : α → Action γ} {g : β → Action δ}
    (hqr : Alike j k R q r) (hfg : ∀ a b, R a b → Alike j k S (f a) (g b)) :
    Alike j k S (q >>= f) (r >>= g) := by
  intro s
  obtain ⟨u, hu, hv, hanswers⟩ := hqr s
  rw [Query.run_bind, Query.run_bind]
  generalize q.run (s.withJournal j) = answered at hu hanswers
  generalize r.run (s.withJournal k) = answered' at hv hanswers
  obtain ⟨a, v⟩ := answered
  obtain ⟨b, v'⟩ := answered'
  obtain rfl : v = u.withJournal j := hu
  obtain rfl : v' = u.withJournal k := hv
  cases a <;> cases b
  case error.error e e' => exact ⟨u, rfl, rfl, hanswers⟩
  case ok.ok a b => exact hfg a b hanswers u
  all_goals exact hanswers.elim

theorem Alike.bind_eq {q r : Action α} {f : α → Action γ} {g : α → Action δ} (hqr : Alike j k Eq q r)
    (hfg : ∀ a, Alike j k S (f a) (g a)) : Alike j k S (q >>= f) (r >>= g) :=
  hqr.bind fun a _ hab => hab ▸ hfg a

theorem Alike.get_bind {f : Session → Action γ} {g : Session → Action δ}
    (hfg : ∀ s : Session, Alike j k S (f (s.withJournal j)) (g (s.withJournal k))) :
    Alike j k S (get >>= f) (get >>= g) :=
  alike_get.bind fun _ _ ⟨v, hs, hu⟩ => hs ▸ hu ▸ hfg v

theorem Alike.journal_run {q : Action α} {r : Action β} {s : Session} (h : Alike s.journal s.journal R q r) :
    (q.run s).2.journal = s.journal := by
  obtain ⟨u, hu, -⟩ := h s
  have hs : q.run s = q.run (s.withJournal s.journal) := rfl
  rw [hs, hu]
  rfl

/-! ### Making a graph -/

theorem alike_place (g : Network) : Alike j k Eq (GraphSpec.place g) (GraphSpec.place g) :=
  .get_bind fun _ => (alike_modifyWorld _).bind_eq fun _ => alike_pure rfl

/-- **Making a graph** does not depend on the journal. -/
theorem alike_make (g : GraphSpec) : Alike j k Eq g.make g.make := by
  cases g with
  | edges directed nodes es =>
    exact (alike_ofExcept _).bind_eq fun _ => (alike_ofExcept _).bind_eq fun _ => alike_place _
  | network directed parallel nodes links =>
    exact (alike_ofExcept _).bind_eq fun _ => (alike_ofExcept _).bind_eq fun _ => alike_place _
  | complete size skip =>
    have hskip : Alike j k Eq (skip.forM fun pair => ofExcept pair.requireKey)
        (skip.forM fun pair => ofExcept pair.requireKey) := by
      induction skip with
      | nil => exact alike_pure rfl
      | cons pair skip ih => exact (alike_ofExcept _).bind_eq fun _ => ih
    exact hskip.bind_eq fun _ => (alike_ofExcept _).bind_eq fun _ =>
      (alike_ofExcept _).bind_eq fun _ => alike_place _
  | tables nodes bound indices outgoing incoming directed =>
    exact (alike_ofExcept _).bind_eq fun _ => (alike_ofExcept _).bind_eq fun _ =>
      (alike_ofExcept _).bind_eq fun _ => alike_freshSerial.bind_eq fun _ => alike_pure rfl
  | value v => exact alike_throw _

/-! ### An enumeration -/

theorem alike_newTally (tally : Tally) : Alike j k Eq (newTally tally) (newTally tally) :=
  .get_bind fun _ => (alike_modifyWorld _).bind_eq fun _ => alike_pure rfl

theorem alike_find (name : String) : Alike j k Eq (find name) (find name) :=
  .get_bind fun s => by
    have hthing (l : Journal) : (s.withJournal l).thing? name = s.thing? name := rfl
    rw [hthing, hthing]
    cases s.thing? name with
    | some thing => exact alike_pure rfl
    | none => exact alike_throw _

theorem alike_account (spec : RunSpec) : Alike j k Eq spec.account spec.account := by
  unfold RunSpec.account
  split
  · exact (alike_ofExcept _).bind_eq fun _ => (alike_newTally _).bind_eq fun _ => alike_pure rfl
  · refine (alike_find _).bind_eq fun thing => ?_
    split
    · exact alike_pure rfl
    · split
      · exact (alike_newTally _).bind_eq fun _ => alike_pure rfl
      · exact alike_pure rfl

theorem alike_store (account : Account) (first last : Counters) :
    Alike j k Eq (account.store first last) (account.store first last) := by
  unfold Account.store
  split
  · exact .get_bind fun _ => alike_modifyWorld _
  · exact alike_pure rfl

/-- **An enumeration** ends alike with two journals that are the same once the library's records are
captured, except for the reports that are kept. -/
theorem alike_run (hcapturing : ∀ level, j.capturing level = k.capturing level) (spec : RunSpec)
    (g : Thing) : Alike j k (fun a b => a.1 = b.1) (spec.run g) (spec.run g) := by
  refine (alike_ofExcept _).bind_eq fun choice => (alike_account spec).bind_eq fun account =>
    (alike_ofExcept _).bind_eq fun level => .get_bind fun s => ?_
  have hconduct (l : Journal) : spec.conduct (s.withJournal l) g
      (choice.resolve (s.withJournal l).defaults) account
        = spec.conduct s g (choice.resolve s.defaults) account := rfl
  have hworld (l : Journal) : (s.withJournal l).world = s.world := rfl
  simp only [hconduct, hworld]
  generalize (spec.conduct s g (choice.resolve s.defaults) account).run s.world = conducted
  obtain ⟨outcome, world⟩ := conducted
  refine (alike_set { s with world }).bind_eq fun _ => (alike_store _ _ _).bind_eq fun _ => ?_
  cases account.untold with
  | some e => exact (alike_throw e).bind fun _ _ (h : False) => h.elim
  | none =>
    refine .get_bind fun u => alike_pure ?_
    cases level with
    | none => rfl
    | some level =>
      have hkept : (s.withJournal j).journal.capturing level = (s.withJournal k).journal.capturing level :=
        hcapturing level
      simp only [Option.elim_some, hkept]
      rfl

end Action

end MaximalCliques
