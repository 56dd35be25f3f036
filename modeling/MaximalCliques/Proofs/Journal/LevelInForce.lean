import MaximalCliques.Proofs.Journal.Channels
import MaximalCliques.Proofs.Journal.Unaffected

/-!
# The level in force

A level is put in force by a configuration that takes effect or by setting the level, and stays until
another one is put in force or the configuration is undone.  Asking for a channel lifts that channel's own
level: below the library's channel this changes nothing, but asking for the library's channel itself lifts
the level in force, and what stands above takes its place.

* **`JournalSession.after`** — a session after a sequence of requests; **`Journal.loaded`** — the journal
  that a program finds when it has loaded the library.
* **`Journal.configure_cases`** — what a configuration does.
* **`LevelHistory`** — what a sequence of requests says about levels: which one was put in force last, and
  whether it has been lifted since.
* **`LevelHistory.Describes.step`**, **`LevelHistory.Describes.run`** — the history tells the levels of all
  channels.
* **`JournalSession.effectiveLevel_after`** — the level in force for the channels of the library.
-/

namespace MaximalCliques

/-! ### Sequences of requests -/

/-- The journal that a program finds when it has loaded the library, having made outlets before and given some
of them to the channel above all others: it has been configured in the usual way, and two parts of the library
have asked for their channels. -/
def Journal.loaded (outlets : List (OutletName × Outlet)) (topAttached : List OutletName) : Journal :=
  (({ outlets, topAttached } : Journal).channel "cliquegraph.algorithms.adjacency").channel
    "cliquegraph.algorithms.cliques"

def JournalSession.after (s : JournalSession) (requests : List JournalRequest) : JournalSession :=
  requests.foldl (fun s request => (s.answer request).2) s

/-! ### What a configuration does -/

namespace Journal

variable (j : Journal) (level : Level) (pattern : Identifier) (name : OutletName)

/-- Putting an outlet in its place changes nothing but the outlets. -/
theorem exists_putOutlet (o : Outlet) : ∃ outlets, j.putOutlet name o = { j with outlets } := by
  unfold putOutlet
  split <;> exact ⟨_, rfl⟩

theorem exists_openOutlet : ∃ outlets, j.openOutlet name = { j with outlets } := by
  unfold openOutlet
  split
  · exact ⟨j.outlets, rfl⟩
  · exact exists_putOutlet j name {}

/-- **What a configuration does**: nothing if there has been one before.  Otherwise the library's channel
gets its level and loses its outlets; with a pattern that can be read it gets one outlet and is
configured. -/
theorem configure_cases :
    (j.configured = true ∧ j.configure level pattern name = (j, .ok ())) ∨
    (j.configured = false ∧ ∃ p outlets, patternOf pattern = .ok p ∧
      j.configure level pattern name = ({ j.putLevel libraryChannel level with
        outlets, attached := [name], configured := true }, .ok ())) ∨
    (j.configured = false ∧ ∃ e, patternOf pattern = .error e ∧
      j.configure level pattern name =
        ({ j.putLevel libraryChannel level with attached := [] }, .error e)) := by
  unfold configure
  cases hconfigured : j.configured with
  | true => exact .inl ⟨rfl, rfl⟩
  | false =>
    cases hpattern : patternOf pattern with
    | error e => exact .inr (.inr ⟨rfl, e, rfl, rfl⟩)
    | ok p =>
      obtain ⟨outlets, hput⟩ := exists_putOutlet { j.putLevel libraryChannel level with attached := [] }
        name { readyOutlet { j.putLevel libraryChannel level with attached := [] } name with pattern := p }
      refine .inr (.inl ⟨rfl, p, outlets, rfl, ?_⟩)
      simp only [hput, Bool.false_eq_true, if_false]

/-- The usual configuration: nothing if there has been one before, and otherwise it takes effect. -/
theorem configureUsual_cases :
    (j.configured = true ∧ j.configureUsual = j) ∨
    (j.configured = false ∧ ∃ outlets, j.configureUsual = { j.putLevel libraryChannel usualLevel with
      outlets, attached := [.standard], configured := true }) := by
  unfold configureUsual
  obtain ⟨hj, h⟩ | ⟨hj, p, outlets, -, h⟩ | ⟨-, e, he, -⟩ := j.configure_cases usualLevel .absent .standard
  · exact .inl ⟨hj, by rw [h]⟩
  · exact .inr ⟨hj, outlets, by rw [h]⟩
  · cases he

/-- Setting the level gives it to the library's channel, whether that was configured before or not. -/
theorem levels_setLevel : (j.setLevel level).levels = (j.putLevel libraryChannel level).levels := by
  show (j.configureUsual.putLevel libraryChannel level).levels = _
  obtain ⟨-, heq⟩ | ⟨-, outlets, heq⟩ := j.configureUsual_cases
  · rw [heq]
  · have hlevels := congrArg Journal.levels (putLevel_putLevel j libraryChannel usualLevel level)
    rw [heq]
    exact hlevels

theorem channels_configureUsual : j.configureUsual.channels = j.channels := by
  obtain ⟨-, heq⟩ | ⟨-, outlets, heq⟩ := j.configureUsual_cases <;> rw [heq]
  rfl

/-- The usual configuration configures the library's channel, if it was not configured before. -/
theorem configured_configureUsual : j.configureUsual.configured = true := by
  obtain ⟨hj, heq⟩ | ⟨-, outlets, heq⟩ := j.configureUsual_cases
  · rw [heq, hj]
  · rw [heq]

end Journal

/-! ### Histories -/

/-- What a sequence of requests says about levels. -/
structure LevelHistory where
  /-- The level that was put in force last; nothing if the journal is not configured. -/
  level : Option Level := none
  /-- Has the library's own channel been asked for since then? -/
  lifted : Bool := false
  /-- Has the channel above all others been asked for? -/
  topLifted : Bool := false
deriving DecidableEq, Repr

namespace LevelHistory

def put (h : LevelHistory) (level : Level) : LevelHistory :=
  { h with level := some level, lifted := false }

def ensure (h : LevelHistory) : LevelHistory :=
  if h.level.isSome then h else h.put Journal.usualLevel

/-- A configuration is asked for: it takes effect if there has been none before and its level and its
pattern can be read. -/
def configure (h : LevelHistory) (level : Option Identifier) (pattern : Identifier) : LevelHistory :=
  if h.level.isSome then h
  else match level.elim (.ok Journal.usualLevel) Level.ofIdentifier, Journal.patternOf pattern with
    | .ok level, .ok _ => h.put level
    | _, _ => h

/-- A channel is asked for. -/
def ask (h : LevelHistory) (channel : String) : LevelHistory :=
  { h.ensure with
    lifted := h.ensure.lifted || channel == Journal.libraryChannel
    topLifted := h.ensure.topLifted || channel == Journal.topChannel }

def next (h : LevelHistory) : JournalRequest → LevelHistory
  | .configure level pattern _ => h.configure level pattern
  | .channel name => (Journal.channelOf name).toOption.elim h.ensure h.ask
  | .setLevel level => (Level.ofIdentifier level).toOption.elim h.ensure h.put
  | .enableDebug => h.put 10
  | .disableDebug => h.put 20
  | .reset => { h with level := none }
  | .write .. | .run .. => h

/-- The history of a sequence of requests to a library that has just been loaded. -/
def of (requests : List JournalRequest) : LevelHistory :=
  requests.foldl next { level := some Journal.usualLevel }

def top (h : LevelHistory) : Level := if h.topLifted then 0 else Journal.topLevel

/-- The level in force for the channels of the library while it is configured. -/
def inForce (h : LevelHistory) (level : Level) : Level :=
  if h.lifted || level.toInt == 0 then h.top else level

/-! ### The levels that a history describes -/

/-- **The history describes the levels of all channels.** -/
structure Describes (h : LevelHistory) (j : Journal) : Prop where
  configured : j.configured = h.level.isSome
  library : ∀ level, h.level = some level →
    j.ownLevel Journal.libraryChannel = if h.lifted then 0 else level
  top : j.ownLevel Journal.topChannel = h.top
  channels : Journal.libraryChannel ∈ j.channels ∧ Journal.topChannel ∉ j.channels
  others : ∀ c, c ≠ Journal.libraryChannel → c ≠ Journal.topChannel → j.ownLevel c = 0
  attached : j.configured = false → j.attached = []

namespace Describes

open Journal

variable {h : LevelHistory} {j : Journal} (hd : h.Describes j)
include hd

theorem openOutlet (name : OutletName) : h.Describes (j.openOutlet name) := by
  obtain ⟨outlets, hopen⟩ := j.exists_openOutlet name
  rw [hopen]
  exact ⟨hd.configured, hd.library, hd.top, hd.channels, hd.others, hd.attached⟩

theorem openChannel (c : String) : h.Describes (j.openChannel c) := by
  have hopen : ∃ channels, j.openChannel c = { j with channels } := by
    unfold Journal.openChannel
    split <;> exact ⟨_, rfl⟩
  have hchannels : libraryChannel ∈ (j.openChannel c).channels ∧ topChannel ∉ (j.openChannel c).channels := by
    rw [mem_channels_openChannel, mem_channels_openChannel, not_or]
    exact ⟨.inl hd.channels.1, hd.channels.2, fun hc => hc.1 hc.2.symm⟩
  obtain ⟨channels, hopen⟩ := hopen
  rw [hopen] at hchannels ⊢
  exact ⟨hd.configured, hd.library, hd.top, hchannels, hd.others, hd.attached⟩

/-- The library's channel has been given a level and is configured. -/
theorem put {k : Journal} (level : Level) (hk : k.levels = (j.putLevel libraryChannel level).levels)
    (hchannels : k.channels = j.channels) (hconfigured : k.configured = true) :
    (h.put level).Describes k where
  configured := hconfigured
  library l hl := by
    rw [ownLevel_congr hk, ownLevel_putLevel, if_pos rfl]
    exact Option.some.inj hl
  top := by
    rw [ownLevel_congr hk, ownLevel_putLevel_of_ne (by decide)]
    exact hd.top
  channels := hchannels ▸ hd.channels
  others c hc htop := by
    rw [ownLevel_congr hk, ownLevel_putLevel_of_ne hc]
    exact hd.others c hc htop
  attached hk := nomatch hk.symm.trans hconfigured

theorem ensure : h.ensure.Describes j.configureUsual := by
  unfold LevelHistory.ensure
  obtain ⟨hj, heq⟩ | ⟨hj, outlets, heq⟩ := j.configureUsual_cases
  · rw [if_pos (hd.configured ▸ hj), heq]
    exact hd
  · rw [if_neg (by rw [← hd.configured, hj]; exact Bool.false_ne_true), heq]
    exact hd.put usualLevel rfl rfl rfl

/-- A configuration that fails or comes too late puts no level in force. -/
theorem configureAt (level : Option Identifier) (pattern : Identifier) (name : OutletName) :
    (h.configure level pattern).Describes (j.configureAt level pattern name).1 := by
  unfold LevelHistory.configure Journal.configureAt
  rw [hd.configured]
  cases hlevel : h.level.isSome with
  | true => exact hd
  | false =>
    rw [← hd.configured] at hlevel
    cases level.elim (.ok usualLevel) Level.ofIdentifier with
    | error e => exact hd
    | ok level =>
      obtain ⟨hj, -⟩ | ⟨-, p, outlets, hp, heq⟩ | ⟨-, e, he, heq⟩ := j.configure_cases level pattern name
      · cases hlevel.symm.trans hj
      · simp only [hp, heq, Bool.false_eq_true, if_false]
        exact hd.put level rfl rfl rfl
      · simp only [he, heq, Bool.false_eq_true, if_false]
        have hnone : h.level = none := by
          rw [← Option.not_isSome_iff_eq_none, ← hd.configured, hlevel]
          exact Bool.false_ne_true
        refine ⟨hd.configured, fun l hl => ?_, ?_, hd.channels, ?_, fun _ => rfl⟩
        · cases hnone.symm.trans hl
        · exact (ownLevel_putLevel_of_ne (by decide)).trans hd.top
        · exact fun c hc htop => (ownLevel_putLevel_of_ne hc).trans (hd.others c hc htop)

/-- A channel that is asked for has no level of its own from then on. -/
theorem channel (c : String) : (h.ask c).Describes (j.channel c) := by
  have hensured := hd.ensure.openChannel c
  refine ⟨hensured.configured, fun level hlevel => ?_, ?_, hensured.channels, fun d hd hdtop => ?_,
    hensured.attached⟩
  · refine (ownLevel_putLevel _ c 0 libraryChannel).trans ?_
    rw [hensured.library level hlevel]
    by_cases hc : libraryChannel = c
    · rw [if_pos hc, ask, beq_iff_eq.2 hc.symm, Bool.or_true, if_pos rfl]
    · rw [if_neg hc, ask, beq_false_of_ne (Ne.symm hc), Bool.or_false]
  · refine (ownLevel_putLevel _ c 0 topChannel).trans ?_
    rw [hensured.top]
    by_cases hc : topChannel = c
    · rw [if_pos hc, LevelHistory.top, ask, beq_iff_eq.2 hc.symm, Bool.or_true, if_pos rfl]
    · rw [if_neg hc, LevelHistory.top, LevelHistory.top, ask, beq_false_of_ne (Ne.symm hc), Bool.or_false]
  · refine (ownLevel_putLevel _ c 0 d).trans ?_
    rw [hensured.others d hd hdtop, ite_self]

theorem setLevel (level : Level) : (h.put level).Describes (j.setLevel level) :=
  hd.put level (j.levels_setLevel level) (j.channels_configureUsual) j.configured_configureUsual

theorem reset : (h.next .reset).Describes j.reset where
  configured := rfl
  library _ hl := nomatch hl
  top := (ownLevel_putLevel_of_ne (by decide)).trans hd.top
  channels := hd.channels
  others c hc htop := (ownLevel_putLevel_of_ne hc).trans (hd.others c hc htop)
  attached _ := rfl

omit hd in
/-- **One request**: if the history describes the levels before, it does so after. -/
theorem step {s : JournalSession} (hd : h.Describes s.journal) (request : JournalRequest) :
    (h.next request).Describes (s.answer request).2.journal := by
  cases request with
  | configure level pattern name => exact (hd.openOutlet name).configureAt level pattern name
  | channel name =>
    simp only [next, JournalSession.answer]
    cases Journal.channelOf name with
    | error e => exact hd.ensure
    | ok c => exact hd.channel c
  | setLevel level =>
    simp only [next, JournalSession.answer, setLevelTo]
    cases Level.ofIdentifier level with
    | error e => exact hd.ensure
    | ok level => exact hd.setLevel level
  | enableDebug => exact hd.setLevel 10
  | disableDebug => exact hd.setLevel 20
  | reset => exact hd.reset
  | write channel level subject =>
    simp only [next, JournalSession.answer]
    cases Journal.channelOf channel with
    | error e => exact hd
    | ok channel =>
      have hopened := hd.openChannel channel
      cases Level.ofInteger? level with
      | none => exact hopened
      | some level =>
        exact ⟨hopened.configured, hopened.library, hopened.top, hopened.channels, hopened.others,
          hopened.attached⟩
  | run graph run =>
    have hkept := ((Action.alike_make graph).bind_eq fun g =>
      Action.alike_run (j := s.journal) (fun _ => rfl) run g).journal_run
    simp only [next, JournalSession.answer]
    generalize (graph.make >>= run.run : Action _).run s.session = answered at hkept
    obtain ⟨reply, session⟩ := answered
    have hjournal : session.journal = s.journal := hkept
    cases reply <;> exact hjournal ▸ hd

omit hd in
/-- **A run**: the history of a sequence of requests describes the levels after it. -/
theorem run {s : JournalSession} (hd : h.Describes s.journal) (requests : List JournalRequest) :
    (requests.foldl next h).Describes (s.after requests).journal := by
  induction requests generalizing h s with
  | nil => exact hd
  | cons request requests ih => exact ih (hd.step request)

omit hd in
/-- After the library has been loaded, the usual level is in force. -/
theorem loaded (outlets : List (OutletName × Outlet)) (topAttached : List OutletName) :
    Describes { level := some usualLevel } (Journal.loaded outlets topAttached) := by
  have hfirst : Describes {} { outlets, topAttached } := by
    have hchannels : libraryChannel ∈ [libraryChannel] ∧ topChannel ∉ [libraryChannel] := by decide
    refine ⟨rfl, fun _ hl => (nomatch hl), rfl, hchannels, fun c _ htop => ?_, fun _ => rfl⟩
    unfold ownLevel
    rw [List.lookup_cons, beq_false_of_ne htop]
    rfl
  exact (hfirst.channel "cliquegraph.algorithms.adjacency").channel "cliquegraph.algorithms.cliques"

end Describes

end LevelHistory

/-! ### The level in force -/

open Journal in
/-- **The configured level stays in force, as long as the library's own channel is not asked for.**  A
library has been loaded and been asked for this and that.  If it is configured then, a level has been put
in force, and the level in force for each channel below that of the library is the one that was put in force
last; but if the library's own channel has been asked for since then, it is the level of the channel above all
others, which has one unless it has been asked for itself.  For a channel elsewhere it is always the latter. -/
theorem JournalSession.effectiveLevel_after {s : JournalSession} {outlets : List (OutletName × Outlet)}
    {topAttached : List OutletName} (hs : s.journal = Journal.loaded outlets topAttached)
    (requests : List JournalRequest) (hconfigured : (s.after requests).journal.configured = true) :
    ∃ level, (LevelHistory.of requests).level = some level ∧ ∀ channel,
      (IsLibrarys channel → libraryChannel ∈ (s.after requests).journal.lineage channel) ∧
      (libraryChannel ∈ (s.after requests).journal.lineage channel →
        (s.after requests).journal.effectiveLevel channel = (LevelHistory.of requests).inForce level) ∧
      (libraryChannel ∉ (s.after requests).journal.lineage channel →
        (s.after requests).journal.effectiveLevel channel = (LevelHistory.of requests).top) := by
  have hd : (LevelHistory.of requests).Describes (s.after requests).journal :=
    LevelHistory.Describes.run (hs ▸ LevelHistory.Describes.loaded outlets topAttached) requests
  obtain ⟨level, hlevel⟩ := Option.isSome_iff_exists.1 (hd.configured.symm.trans hconfigured)
  have htop : (if (LevelHistory.of requests).top.toInt = 0 then 0 else (LevelHistory.of requests).top)
      = (LevelHistory.of requests).top := by
    unfold LevelHistory.top
    cases (LevelHistory.of requests).topLifted <;> rfl
  refine ⟨level, hlevel, fun channel => ⟨library_mem_lineage hd.channels.1, fun hbelow => ?_, fun helse => ?_⟩⟩
  · rw [effectiveLevel_eq hd.others hd.channels.2, hd.library level hlevel, hd.top, htop,
      LevelHistory.inForce]
    cases (LevelHistory.of requests).lifted <;> simp [hbelow, Level.toInt]
  · rw [effectiveLevel_eq hd.others hd.channels.2, if_neg fun h => helse h.1, hd.top, htop]

/-- The journal after the level has been set to 10 and a channel has been asked for, in a program that has
loaded the library. -/
def Journal.afterTen (channel : String) : Journal :=
  (JournalSession.after { session := { journal := Journal.loaded [] [] } }
    [.setLevel (.integer 10), .channel (.text channel)]).journal

/-- The level 10 stays in force for a channel below the library's. -/
theorem JournalSession.effectiveLevel_after_ten :
    (Journal.afterTen "cliquegraph.search").configured = true ∧
      (Journal.afterTen "cliquegraph.search").effectiveLevel "cliquegraph.search" = 10 := by
  have hconfigured : (Journal.afterTen "cliquegraph.search").configured = true := by decide
  have hlibrarys : Journal.IsLibrarys "cliquegraph.search" := .inr ⟨"search", by decide, by decide⟩
  obtain ⟨level, hlevel, hinForce⟩ := effectiveLevel_after
    (s := { session := { journal := Journal.loaded [] [] } }) rfl
    [.setLevel (.integer 10), .channel (.text "cliquegraph.search")] hconfigured
  obtain ⟨hbelow, hlevels, -⟩ := hinForce "cliquegraph.search"
  obtain rfl : 10 = level := Option.some.inj hlevel
  exact ⟨hconfigured, (hlevels (hbelow hlibrarys)).trans (by decide)⟩

/-- **The level is lifted by asking for the library's own channel**: the level 10 is put in force, the
library's channel is asked for, and the level in force for it is 30. -/
theorem Journal.effectiveLevel_lifted :
    libraryChannel ∈ (afterTen libraryChannel).lineage libraryChannel ∧
      (afterTen libraryChannel).configured = true ∧
      (LevelHistory.of [.setLevel (.integer 10), .channel (.text libraryChannel)]).level = some 10 ∧
      (afterTen libraryChannel).effectiveLevel libraryChannel = 30 :=
  ⟨by decide, by decide, by decide, by decide⟩

end MaximalCliques
