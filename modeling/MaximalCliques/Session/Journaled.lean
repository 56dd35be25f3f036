import MaximalCliques.Journal
import MaximalCliques.Session.Run

/-!
# Sessions with a journal

* **`JournalRequest`** — what may be asked of a journal, an enumeration included.
* **`JournalSession.perform`** — the answer and what has been laid out on the way.
-/

namespace MaximalCliques

inductive JournalRequest where
  | configure (level : Option Identifier) (pattern : Identifier) (outlet : OutletName)
  | channel (name : Identifier)
  | setLevel (level : Identifier)
  | enableDebug
  | disableDebug
  | reset
  | write (channel level subject : Identifier)
  /-- An enumeration whose reports are written to the journal. -/
  | run (graph : GraphSpec) (run : RunSpec)

/-- What a channel looks like. -/
structure ChannelState where
  name : String
  level : Level
  effectiveLevel : Level
  outlets : List (OutletName × Outlet)
deriving Repr

inductive JournalReply where
  | nothing
  | channel (state : ChannelState)
  | run (run : RunReply)

structure JournalSession where
  session : Session := {}
  /-- The text that stands for the time that an enumeration took. -/
  elapsed : String := ""

def Journal.channelState (j : Journal) (name : String) : ChannelState where
  name := name
  level := j.ownLevel name
  effectiveLevel := j.effectiveLevel name
  outlets :=
    let names := if name = Journal.libraryChannel then j.attached
      else if name = Journal.topChannel then j.topAttached else []
    names.map fun n => (n, j.outlet n)

/-- Configures the library's channel with a level given as a value, which is looked at only if the
channel has not been configured before. -/
def Journal.configureAt (j : Journal) (level : Option Identifier) (pattern : Identifier)
    (name : OutletName) : Journal × Except Fault Unit :=
  if j.configured then (j, .ok ())
  else match level.elim (.ok Journal.usualLevel) Level.ofIdentifier with
    | .error e => (j, .error e)
    | .ok level => j.configure level pattern name

/-- Sets the level of the library's channel to one given as a value; the channel is configured even
if there is no such level. -/
def Journal.setLevelTo (j : Journal) (level : Identifier) : Journal × Except Fault Unit :=
  match Level.ofIdentifier level with
  | .error e => (j.configureUsual, .error e)
  | .ok level => (j.setLevel level, .ok ())

/-- The record of a report; `elapsed` stands for the time that the enumeration took. -/
def Report.record (r : Report) (elapsed : String) : Record where
  channel := r.channel
  level := r.level
  subject := .text r.template
  arguments := r.arguments
  message := r.message elapsed

namespace JournalSession

def journal (s : JournalSession) : Journal := s.session.journal

def withJournal (s : JournalSession) (journal : Journal) : JournalSession :=
  { s with session := { s.session with journal } }

/-- The answer to a request, and what has been laid out. -/
structure Answer where
  reply : Except Fault JournalReply
  lines : Journal.Lines := {}

def changed (s : JournalSession) (change : Journal × Except Fault Unit) : Answer × JournalSession :=
  ({ reply := change.2.map fun _ => .nothing }, s.withJournal change.1)

def answer (s : JournalSession) : JournalRequest → Answer × JournalSession
  | .configure level pattern outlet =>
    s.changed ((s.journal.openOutlet outlet).configureAt level pattern outlet)
  | .channel name =>
    match Journal.channelOf name with
    | .error e => s.changed (s.journal.configureUsual, .error e)
    | .ok name =>
      let journal := s.journal.channel name
      ({ reply := .ok (.channel (journal.channelState name)) }, s.withJournal journal)
  | .setLevel level => s.changed (s.journal.setLevelTo level)
  | .enableDebug => s.changed (s.journal.enableDebug, .ok ())
  | .disableDebug => s.changed (s.journal.disableDebug, .ok ())
  | .reset => s.changed (s.journal.reset, .ok ())
  | .write channel level subject =>
    match Journal.channelOf channel with
    | .error e => ({ reply := .error e }, s)
    | .ok channel =>
      let journal := s.journal.openChannel channel
      -- without a number for a level there is no record
      match Level.ofInteger? level with
      | none => ({ reply := .ok .nothing }, s.withJournal journal)
      | some level =>
        let (lines, journal) := journal.write { channel, level, subject }
        ({ reply := .ok .nothing, lines }, s.withJournal journal)
  | .run graph run =>
    let enumeration : Action (RunReply × List Report) := do run.run (← graph.make)
    match enumeration.run s.session with
    | (.error e, session) => ({ reply := .error e }, { s with session })
    | (.ok (reply, kept), session) =>
      let lines := s.journal.deliverAll (kept.map fun r => r.record s.elapsed)
      ({ reply := .ok (.run reply), lines }, { s with session })

/-- The answer to a request.  One that could not be read is answered by why. -/
def perform (s : JournalSession) : Except Fault JournalRequest → Answer × JournalSession
  | .ok request => s.answer request
  | .error e => ({ reply := .error e }, s)

end JournalSession

end MaximalCliques
