import MaximalCliques.Proofs.Journal.LevelInForce

/-!
# Configurations that are refused

A configuration whose level or pattern cannot be read is refused, and the library's channel stays as little
configured as it was.  The level is set before the pattern is looked at, so a refused pattern leaves a level
behind.  As the channel has no outlets then, they lay out nothing on account of it, and the next configuration
forgets it; but what is laid out above the library's channel depends on it until then.

* **`Journal.SameButLevel`** — two journals that are not configured and differ in the level of the
  library's channel at most, and in what has been kept on account of it.
* **`JournalSession.SameButLevel.answer`**, **`JournalSession.SameButLevel.answers_eq`** — they answer a
  request, and a sequence of requests, alike.
* **`Journal.RefusedFrom`** — what a refused configuration leaves behind.
* **`JournalSession.configure_refused`** — what it leaves behind, and that all that is answered, and laid out
  by the library's outlets, is the same later as without it.
-/

namespace MaximalCliques

namespace Journal

/-- **Journals that differ in the level of the library's channel at most**, and in which records have been kept
since it was set, and are not configured. -/
structure SameButLevel (j k : Journal) : Prop where
  putLevel : ∀ level, k.putLevel libraryChannel level = j.putLevel libraryChannel level
  configured : j.configured = false
  attached : j.attached = []

namespace SameButLevel

variable {j k : Journal} (h : SameButLevel j k)
include h

theorem configured_right : k.configured = false :=
  (congrArg Journal.configured (h.putLevel 0)).trans h.configured

theorem attached_right : k.attached = [] := (congrArg Journal.attached (h.putLevel 0)).trans h.attached

theorem outlets_eq : k.outlets = j.outlets := by
  have houtlets := congrArg Journal.outlets (h.putLevel 0)
  exact houtlets

theorem channels_eq : k.channels = j.channels := by
  have hchannels := congrArg Journal.channels (h.putLevel 0)
  exact hchannels

theorem configure_eq (level : Level) (pattern : Identifier) (name : OutletName) :
    k.configure level pattern name = j.configure level pattern name := by
  unfold configure
  simp only [h.configured, h.configured_right, h.putLevel, Bool.false_eq_true, if_false]

theorem configureUsual_eq : k.configureUsual = j.configureUsual :=
  congrArg Prod.fst (h.configure_eq usualLevel .absent .standard)

theorem setLevel_eq (level : Level) : k.setLevel level = j.setLevel level := by
  unfold setLevel
  rw [h.configureUsual_eq]

theorem reset_eq : k.reset = j.reset := by
  unfold reset
  rw [h.putLevel]

theorem openOutlet (name : OutletName) : SameButLevel (j.openOutlet name) (k.openOutlet name) := by
  unfold Journal.openOutlet putOutlet
  rw [h.outlets_eq]
  split
  · exact h
  · refine ⟨fun level => ?_, h.configured, h.attached⟩
    have hput := congrArg (fun l : Journal => { l with outlets := j.outlets ++ [(name, ({} : Outlet))] })
      (h.putLevel level)
    exact hput

theorem openChannel (c : String) : SameButLevel (j.openChannel c) (k.openChannel c) := by
  unfold Journal.openChannel
  rw [h.channels_eq]
  split
  · exact h
  · refine ⟨fun level => ?_, h.configured, h.attached⟩
    have hput := congrArg (fun l : Journal => { l with channels := c :: j.channels }) (h.putLevel level)
    exact hput

/-- The library's outlets, of which there are none, lay out nothing in either. -/
theorem own_deliverAll (records records' : List Record) :
    (j.deliverAll records).own = [] ∧ (k.deliverAll records').own = [] := by
  have hnone : ∀ l : Journal, l.attached = [] → ∀ rs, (l.deliverAll rs).own = [] := by
    intro l hl rs
    refine List.flatMap_eq_nil_iff.2 fun r _ => ?_
    rw [attachedTo, hl, ite_self]
    rfl
  exact ⟨hnone j h.attached records, hnone k h.attached_right records'⟩

theorem write (r : Record) : SameButLevel (j.write r).2 (k.write r).2 :=
  ⟨h.putLevel, h.configured, h.attached⟩

end SameButLevel

end Journal

namespace JournalSession

def answers (s : JournalSession) : List JournalRequest → List Answer
  | [] => []
  | request :: requests => (s.answer request).1 :: answers (s.answer request).2 requests

/-- **Sessions that differ in the level of the library's channel at most**, and are not configured. -/
structure SameButLevel (s t : JournalSession) : Prop where
  journals : s.journal.SameButLevel t.journal
  rest : t = s.withJournal t.journal

/-- An answer, and what the outlets of the library's channel have laid out. -/
def Answer.own (a : Answer) : Except Fault JournalReply × List (OutletName × String) := (a.reply, a.lines.own)

/-- **Answered alike**: the answers are the same and so is what the library's outlets lay out, and the sessions
are the same afterwards or differ in the level of the library's channel at most. -/
structure AnsweredAlike (a b : Answer × JournalSession) : Prop where
  answer : b.1.own = a.1.own
  session : b.2 = a.2 ∨ SameButLevel a.2 b.2

theorem AnsweredAlike.of_eq (s : JournalSession) {k : Journal} {a b : Journal × Except Fault Unit}
    (hab : b = a) : AnsweredAlike (s.changed a) ((s.withJournal k).changed b) :=
  hab ▸ ⟨rfl, .inl rfl⟩

theorem AnsweredAlike.of_sameButLevel (s : JournalSession) {k j' k' : Journal} (h : j'.SameButLevel k')
    (reply : Except Fault Unit) :
    AnsweredAlike (s.changed (j', reply)) ((s.withJournal k).changed (k', reply)) :=
  ⟨rfl, .inr ⟨h, rfl⟩⟩

theorem AnsweredAlike.write {s : JournalSession} {k : Journal} (h : s.journal.SameButLevel k)
    (channel level subject : Identifier) : AnsweredAlike (s.answer (.write channel level subject))
      ((s.withJournal k).answer (.write channel level subject)) := by
  simp only [JournalSession.answer]
  cases Journal.channelOf channel with
  | error e => exact ⟨rfl, .inr ⟨h, rfl⟩⟩
  | ok channel =>
    have hopened := h.openChannel channel
    cases Level.ofInteger? level with
    | none => exact ⟨rfl, .inr ⟨hopened, rfl⟩⟩
    | some level =>
      obtain ⟨hown, hown'⟩ := hopened.own_deliverAll
        (if (s.journal.openChannel channel).keeps channel level then [{ channel, level, subject }] else [])
        (if (k.openChannel channel).keeps channel level then [{ channel, level, subject }] else [])
      exact ⟨Prod.ext rfl (hown'.trans hown.symm), .inr ⟨hopened.write _, rfl⟩⟩

theorem AnsweredAlike.run {s : JournalSession} {k : Journal} (h : s.journal.SameButLevel k)
    (graph : GraphSpec) (run : RunSpec) :
    AnsweredAlike (s.answer (.run graph run)) ((s.withJournal k).answer (.run graph run)) := by
  have halike := (Action.alike_make graph).bind_eq fun g =>
    Action.alike_run (fun level => (h.putLevel level).symm) run g
  obtain ⟨u, hu, hv, hanswers⟩ := halike s.session
  have hs : s.session.withJournal s.journal = s.session := rfl
  have hk : (s.withJournal k).session = s.session.withJournal k := rfl
  rw [hs] at hu hanswers
  simp only [JournalSession.answer, hk]
  generalize (graph.make >>= run.run : Action _).run s.session = answered at hu hanswers
  generalize (graph.make >>= run.run : Action _).run (s.session.withJournal k) = answered' at hv hanswers
  obtain ⟨reply, v⟩ := answered
  obtain ⟨reply', v'⟩ := answered'
  obtain rfl : v = u.withJournal s.journal := hu
  obtain rfl : v' = u.withJournal k := hv
  cases reply <;> cases reply'
  case error.error e e' =>
    obtain rfl : e = e' := hanswers
    exact ⟨rfl, .inr ⟨h, rfl⟩⟩
  case ok.ok r r' =>
    obtain ⟨reply, kept⟩ := r
    obtain ⟨reply', kept'⟩ := r'
    obtain rfl : reply = reply' := hanswers
    obtain ⟨hown, hown'⟩ := h.own_deliverAll (kept.map fun r => r.record s.elapsed)
      (kept'.map fun r => r.record s.elapsed)
    exact ⟨Prod.ext rfl (hown'.trans hown.symm), .inr ⟨h, rfl⟩⟩
  all_goals exact hanswers.elim

/-- **One request**: sessions that differ in the level of the library's channel at most answer it alike. -/
theorem SameButLevel.answer {s t : JournalSession} (h : SameButLevel s t) (request : JournalRequest) :
    AnsweredAlike (s.answer request) (t.answer request) := by
  obtain ⟨k, hk⟩ : ∃ k, t = s.withJournal k := ⟨_, h.rest⟩
  subst hk
  have hjournals : s.journal.SameButLevel k := h.journals
  cases request with
  | configure level pattern name =>
    have hopened := hjournals.openOutlet name
    have hk : (s.withJournal k).journal = k := rfl
    simp only [JournalSession.answer, Journal.configureAt, hk, hopened.configured,
      hopened.configured_right, Bool.false_eq_true, if_false]
    cases level.elim (.ok Journal.usualLevel) Level.ofIdentifier with
    | error e => exact .of_sameButLevel s hopened (.error e)
    | ok level => exact .of_eq s (hopened.configure_eq level pattern name)
  | channel name =>
    simp only [JournalSession.answer]
    cases Journal.channelOf name with
    | error e => exact .of_eq s (Prod.ext hjournals.configureUsual_eq rfl)
    | ok c =>
      have hchannel : (s.withJournal k).journal.channel c = s.journal.channel c :=
        congrArg (fun j : Journal => (j.openChannel c).putLevel c 0) hjournals.configureUsual_eq
      simp only [hchannel]
      exact ⟨rfl, .inl rfl⟩
  | setLevel level =>
    simp only [JournalSession.answer, Journal.setLevelTo]
    cases Level.ofIdentifier level with
    | error e => exact .of_eq s (Prod.ext hjournals.configureUsual_eq rfl)
    | ok level => exact .of_eq s (Prod.ext (hjournals.setLevel_eq level) rfl)
  | enableDebug => exact .of_eq s (Prod.ext (hjournals.setLevel_eq 10) rfl)
  | disableDebug => exact .of_eq s (Prod.ext (hjournals.setLevel_eq 20) rfl)
  | reset => exact .of_eq s (Prod.ext hjournals.reset_eq rfl)
  | write channel level subject => exact .write hjournals channel level subject
  | run graph run => exact .run hjournals graph run

/-- **A sequence of requests**: sessions that differ in the level of the library's channel at most give the
same answers to it, and their outlets lay out the same. -/
theorem SameButLevel.answers_eq {s t : JournalSession} (h : SameButLevel s t)
    (requests : List JournalRequest) :
    (t.answers requests).map Answer.own = (s.answers requests).map Answer.own := by
  induction requests generalizing s t with
  | nil => rfl
  | cons request requests ih =>
    obtain ⟨hanswer, hsame | hsame⟩ := h.answer request
    · rw [answers, answers, List.map_cons, List.map_cons, hanswer, hsame]
    · rw [answers, answers, List.map_cons, List.map_cons, hanswer, ih hsame]

end JournalSession

/-! ### What a refused configuration leaves behind -/

namespace Journal

variable {j : Journal} {e : Fault}

/-- **What a refused configuration leaves behind**: a journal `k` in place of `j`.  Nothing is configured,
before or after, and no outlets or channels have changed.  A level that cannot be read changes nothing at
all, but if it is the pattern that cannot be read, the library's channel has the new level. -/
structure RefusedFrom (level : Except Fault Level) (pattern : Identifier) (e : Fault) (j k : Journal) :
    Prop where
  unconfigured : j.configured = false ∧ k.configured = false
  withoutOutlets : j.attached = [] ∧ k.attached = []
  outlets : k.outlets = j.outlets ∧ k.topAttached = j.topAttached
  channels : k.channels = j.channels
  others : ∀ c, c ≠ libraryChannel → k.ownLevel c = j.ownLevel c
  library : (level = .error e ∧ k = j) ∨
    ∃ l, level = .ok l ∧ patternOf pattern = .error e ∧ k.ownLevel libraryChannel = l

theorem openOutlet_openOutlet (j : Journal) (name : OutletName) :
    (j.openOutlet name).openOutlet name = j.openOutlet name := by
  unfold openOutlet
  cases hname : j.outlets.any (·.1 == name) <;> simp [hname, putOutlet]

/-- A journal without outlets whose library's channel is given a level differs in that only. -/
theorem sameButLevel_putLevel (hconfigured : j.configured = false) (hattached : j.attached = [])
    (l : Level) : SameButLevel j (j.putLevel libraryChannel l) :=
  ⟨fun _ => putLevel_putLevel j libraryChannel l _, hconfigured, hattached⟩

/-- **A configuration that is refused**, of a journal without outlets. -/
theorem configureAt_refused (hattached : j.configured = false → j.attached = [])
    {level : Option Identifier} {pattern : Identifier} {name : OutletName}
    (hrefused : (j.configureAt level pattern name).2 = .error e) :
    RefusedFrom (level.elim (.ok usualLevel) Level.ofIdentifier) pattern e j
        (j.configureAt level pattern name).1 ∧
      SameButLevel j (j.configureAt level pattern name).1 := by
  have hconfigured : j.configured = false := by
    cases hj : j.configured with
    | false => rfl
    | true =>
      rw [configureAt, hj] at hrefused
      cases hrefused
  have hattached := hattached hconfigured
  unfold configureAt at hrefused ⊢
  simp only [hconfigured, Bool.false_eq_true, if_false] at hrefused ⊢
  generalize level.elim (.ok usualLevel) Level.ofIdentifier = read at hrefused ⊢
  cases read with
  | error e' =>
    obtain rfl : e' = e := Except.error.inj hrefused
    exact ⟨⟨⟨hconfigured, hconfigured⟩, ⟨hattached, hattached⟩, ⟨rfl, rfl⟩, rfl, fun _ _ => rfl,
      .inl ⟨rfl, rfl⟩⟩, fun _ => rfl, hconfigured, hattached⟩
  | ok l =>
    obtain ⟨hj, -⟩ | ⟨-, p, outlets, -, hconfigure⟩ | ⟨-, e', hpattern, hconfigure⟩ :=
      j.configure_cases l pattern name
    · cases hconfigured.symm.trans hj
    · simp only [hconfigure] at hrefused
      cases hrefused
    · simp only [hconfigure] at hrefused ⊢
      obtain rfl : e' = e := Except.error.inj hrefused
      have hput : ({ j.putLevel libraryChannel l with attached := [] } : Journal)
          = j.putLevel libraryChannel l :=
        congrArg (fun attached => { j.putLevel libraryChannel l with attached }) hattached.symm
      rw [hput]
      refine ⟨⟨⟨hconfigured, hconfigured⟩, ⟨hattached, hattached⟩, ⟨rfl, rfl⟩, rfl,
        fun c hc => ownLevel_putLevel_of_ne hc, .inr ⟨l, rfl, hpattern, ?_⟩⟩,
        sameButLevel_putLevel hconfigured hattached l⟩
      rw [ownLevel_putLevel, if_pos rfl]

end Journal

namespace JournalSession

/-- The session after an outlet has been made, which may then be handed over to it. -/
def withOutlet (s : JournalSession) (name : OutletName) : JournalSession :=
  s.withJournal (s.journal.openOutlet name)

/-- **A configuration that is refused changes at most the level of the library's channel, and that shows in
no answer.**  A library has been loaded and been asked for this and that, and is to be configured with an
outlet that has been made, but refuses.  Then all but the journal is as before; nothing was configured before
and nothing is after; outlets are as they were and none is attached; and levels are as they were, except that
a level which could be read, beside a pattern that could not, is that of the library's channel now.  All
requests that may follow are answered, and all records are laid out by the library's outlets, as if the
configuration had not been asked for. -/
theorem configure_refused {s : JournalSession} {outlets : List (OutletName × Outlet)}
    {topAttached : List OutletName} (hs : s.journal = Journal.loaded outlets topAttached)
    (requests : List JournalRequest) {name : OutletName} {t : JournalSession}
    (ht : t = (s.after requests).withOutlet name) {level : Option Identifier} {pattern : Identifier}
    {e : Fault} (hrefused : (t.answer (.configure level pattern name)).1.reply = .error e) :
    (t.answer (.configure level pattern name)).2
        = t.withJournal (t.answer (.configure level pattern name)).2.journal ∧
      Journal.RefusedFrom (level.elim (.ok Journal.usualLevel) Level.ofIdentifier) pattern e t.journal
        (t.answer (.configure level pattern name)).2.journal ∧
      ∀ later, ((t.answer (.configure level pattern name)).2.answers later).map Answer.own
        = (t.answers later).map Answer.own := by
  have hloaded := LevelHistory.Describes.loaded outlets topAttached
  have hd : (LevelHistory.of requests).Describes t.journal :=
    ht ▸ (LevelHistory.Describes.run (hs ▸ hloaded) requests).openOutlet name
  have hopened : t.journal.openOutlet name = t.journal := ht ▸ Journal.openOutlet_openOutlet _ name
  simp only [answer, hopened] at hrefused ⊢
  have hreply : (t.journal.configureAt level pattern name).2 = .error e := by
    have hmap : (t.journal.configureAt level pattern name).2.map (fun _ => JournalReply.nothing)
        = .error e := hrefused
    cases hresult : (t.journal.configureAt level pattern name).2 with
    | ok u =>
      rw [hresult] at hmap
      cases hmap
    | error e' =>
      rw [hresult] at hmap
      exact congrArg Except.error (Except.error.inj hmap)
  obtain ⟨hleft, hsame⟩ := Journal.configureAt_refused hd.attached hreply
  exact ⟨rfl, hleft, fun later => SameButLevel.answers_eq ⟨hsame, rfl⟩ later⟩

/-- The program that has loaded the library and undone its configuration, with an outlet made. -/
def undoneWithOutlet : JournalSession :=
  (JournalSession.after { session := { journal := Journal.loaded [] [] } } [.reset]).withOutlet (.named "h")

/-- A configuration with a pattern that holds no field. -/
def fieldlessConfiguration (level : Int) : JournalRequest :=
  .configure (some (.integer level)) (.text "plain") (.named "h")

theorem fieldlessConfiguration_refused (level : Int) :
    (undoneWithOutlet.answer (fieldlessConfiguration level)).1.reply = .error (.invalidFormat "plain") := rfl

/-- The configuration is refused; the level 10 stays, and no answer shows it. -/
theorem configure_refused_fieldless :
    Journal.RefusedFrom (.ok 10) (.text "plain") (.invalidFormat "plain") undoneWithOutlet.journal
        (undoneWithOutlet.answer (fieldlessConfiguration 10)).2.journal ∧
      ∀ later, ((undoneWithOutlet.answer (fieldlessConfiguration 10)).2.answers later).map Answer.own
        = (undoneWithOutlet.answers later).map Answer.own :=
  (configure_refused (s := { session := { journal := Journal.loaded [] [] } }) rfl [.reset]
    (t := undoneWithOutlet) rfl (fieldlessConfiguration_refused 10)).2

def warning : JournalRequest := .write (.text Journal.libraryChannel) (.integer 30) (.text "low")

/-- **A refused configuration changes the level of the library's channel**: it was 0 and is 10.  With a higher
level, a warning that has been laid out as a last resort is not laid out any more. -/
theorem ownLevel_refused :
    (undoneWithOutlet.answer (fieldlessConfiguration 10)).1.reply = .error (.invalidFormat "plain") ∧
      undoneWithOutlet.journal.ownLevel Journal.libraryChannel = 0 ∧
      (undoneWithOutlet.answer (fieldlessConfiguration 10)).2.journal.ownLevel Journal.libraryChannel = 10 ∧
      (undoneWithOutlet.answer warning).1.lines = { last := ["low\n"] } ∧
      ((undoneWithOutlet.answer (fieldlessConfiguration 50)).2.answer warning).1.lines = {} :=
  ⟨fieldlessConfiguration_refused 10, by decide, by decide, by decide, by decide⟩

end JournalSession

end MaximalCliques
