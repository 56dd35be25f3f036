import MaximalCliques.Fault
import MaximalCliques.Journal.Pattern

/-!
# The journal

Records are written to channels with dotted names.  A channel has a level of its own or takes that of
the nearest channel above it that has one; records below the level are not kept.  The channel of the
library has an outlet that lays out the records of the library's channels.  The channel above all others
may have outlets of the program that uses the library, which lay out these records as well.

* **`Journal.lineage`** — the channels that a channel takes its level from, and hands its records to.
* **`Journal.effectiveLevel`** — the level in force for a channel.
* **`Journal.configure`** — gives the library's channel a level and an outlet, unless it has been
  configured before.
* **`Journal.channel`** — a channel by name; its own level is lifted.
* **`Journal.setLevel`** — sets the level of the library's channel and of its outlet.
* **`Journal.capturing`** — the journal while the library's records are captured from a level on.
* **`Journal.write`** — writes a record; the answer is what has been laid out of it.
-/

namespace MaximalCliques

inductive OutletName where
  /-- The outlet that is used when none is given. -/
  | standard
  | named (name : String)
deriving DecidableEq, Repr

/-- The pattern of the message alone. -/
def Outlet.messageAlone : String := "%(message)s"

/-- An outlet lays out the records from a level on. -/
structure Outlet where
  level : Level := 0
  pattern : String := Outlet.messageAlone
deriving DecidableEq, Repr

/-- The outlet for records that no other one is there for. -/
def Outlet.lastResort : Outlet := { level := 30 }

def Outlet.lay? (o : Outlet) (r : Record) : Option String :=
  if o.level.toInt ≤ r.level.toInt then (Pattern.render? o.pattern r).map (· ++ "\n") else none

def Journal.topChannel : String := "root"

/-- The level that the channel above all others has at first. -/
def Journal.topLevel : Level := 30

def Journal.libraryChannel : String := "cliquegraph"

structure Journal where
  /-- The channels that have a level of their own. -/
  levels : List (String × Level) := [(Journal.topChannel, Journal.topLevel)]
  /-- The channels that there are, apart from the one above all others. -/
  channels : List String := [Journal.libraryChannel]
  /-- Whether records of a level have been kept on a channel since a level was last set. -/
  verdicts : List ((String × Int) × Bool) := []
  /-- The outlets that there are; a named outlet is kept when it is taken off the channel. -/
  outlets : List (OutletName × Outlet) := []
  /-- The outlets of the library's channel. -/
  attached : List OutletName := []
  /-- The outlets of the channel above all others. -/
  topAttached : List OutletName := []
  configured : Bool := false
deriving DecidableEq, Repr

namespace Journal

def usualLevel : Level := 20

def usualPattern : String := "%(asctime)s - %(name)s - %(levelname)s - %(message)s"

/-! ### Channels -/

/-- The channels above one, given by its name read backwards: of the names that stand before its dots, those
that there are.  Nothing stands before a dot at the beginning, and a dot right before another one is passed
over if no channel has the name between them. -/
def above (isThere : String → Bool) (passed : Bool) : List Char → List String
  | [] => []
  | c :: cs =>
    let name := String.ofList cs.reverse
    if c ≠ '.' || passed || cs.isEmpty then above isThere false cs
    else if isThere name then name :: above isThere false cs
    else above isThere true cs

/-- The channel that a name stands for; the empty name stands for the one above all others. -/
def channelNamed (name : String) : String := if name.isEmpty then topChannel else name

/-- The channel that a value stands for; an empty value stands for the one above all others. -/
def channelOf : Identifier → Except Fault String
  | .text name => .ok (channelNamed name)
  | v => if v.isTruthy then .error .channelName else .ok topChannel

/-- A channel and the channels above it, the nearest first. -/
def lineage (j : Journal) (channel : String) : List String :=
  if channel = topChannel then [topChannel]
  else channel :: above j.channels.contains false channel.toList.reverse ++ [topChannel]

/-- Makes a channel, unless there is one. -/
def openChannel (j : Journal) (channel : String) : Journal :=
  if channel = topChannel || j.channels.contains channel then j
  else { j with channels := channel :: j.channels }

/-- The level of a channel's own; zero if it has none. -/
def ownLevel (j : Journal) (channel : String) : Level := (j.levels.lookup channel).getD 0

/-- The level in force for a channel; zero if no channel above it has a level. -/
def effectiveLevel (j : Journal) (channel : String) : Level :=
  (((j.lineage channel).map j.ownLevel).find? (·.toInt != 0)).getD 0

def putLevel (j : Journal) (channel : String) (level : Level) : Journal :=
  { j with levels := (channel, level) :: j.levels.filter (·.1 != channel), verdicts := [] }

/-! ### Outlets -/

def outlet (j : Journal) (name : OutletName) : Outlet := (j.outlets.lookup name).getD {}

def putOutlet (j : Journal) (name : OutletName) (o : Outlet) : Journal :=
  if j.outlets.any (·.1 == name) then
    { j with outlets := j.outlets.map fun (n, old) => (n, if n == name then o else old) }
  else { j with outlets := j.outlets ++ [(name, o)] }

def openOutlet (j : Journal) (name : OutletName) : Journal :=
  if j.outlets.any (·.1 == name) then j else j.putOutlet name {}

/-- The outlet that a channel's configuration uses: a named one as it stands, or a new standard one. -/
def readyOutlet (j : Journal) : OutletName → Outlet
  | .standard => {}
  | .named name => j.outlet (.named name)

/-! ### Configuration -/

/-- The pattern that a value stands for: nothing for the usual one, and an empty value for the message
alone. -/
def patternOf (given : Identifier) : Except Fault String :=
  match given with
  | .absent => .ok usualPattern
  | .text pattern =>
    if pattern.isEmpty then .ok Outlet.messageAlone
    else if Pattern.isValid pattern then .ok pattern
    else .error (.invalidFormat pattern)
  | v => if v.isTruthy then .error (.notAPattern v.kindName) else .ok Outlet.messageAlone

/-- Configures the library's channel.  The level is set and the old outlets are taken off before the
pattern is looked at. -/
def configure (j : Journal) (level : Level) (pattern : Identifier) (name : OutletName) :
    Journal × Except Fault Unit :=
  if j.configured then (j, .ok ())
  else
    let j := { j.putLevel libraryChannel level with attached := [] }
    match patternOf pattern with
    | .ok pattern =>
      let j := j.putOutlet name { j.readyOutlet name with pattern }
      ({ j with attached := [name], configured := true }, .ok ())
    | .error e => (j, .error e)

def configureUsual (j : Journal) : Journal := (j.configure usualLevel .absent .standard).1

/-- A channel by name: the journal is configured, and the channel takes its level from above. -/
def channel (j : Journal) (name : String) : Journal :=
  (j.configureUsual.openChannel name).putLevel name 0

/-- Sets the level of the library's channel and of its outlets. -/
def setLevel (j : Journal) (level : Level) : Journal :=
  let j := j.configureUsual.putLevel libraryChannel level
  { j with outlets := j.outlets.map fun (n, o) =>
      (n, if j.attached.contains n then { o with level } else o) }

def enableDebug (j : Journal) : Journal := j.setLevel 10

def disableDebug (j : Journal) : Journal := j.setLevel 20

def reset (j : Journal) : Journal :=
  { j.putLevel libraryChannel 0 with attached := [], configured := false }

/-! ### Writing -/

/-- Is a record of this level kept on a channel?  What has been found once holds until a level is set. -/
def keeps (j : Journal) (channel : String) (level : Level) : Bool :=
  (j.verdicts.lookup (channel, level.toInt)).getD
    (decide (0 < level.toInt) && decide ((j.effectiveLevel channel).toInt ≤ level.toInt))

/-- The journal while the library's records are captured from a level on: for as long as that lasts,
the level stands in for the level of the library's channel. -/
def capturing (j : Journal) (level : Level) : Journal := j.putLevel libraryChannel level

/-- The outlets of the library's channel, if a channel is that or stands below it. -/
def attachedTo (j : Journal) (channel : String) : List OutletName :=
  if (j.lineage channel).contains libraryChannel then j.attached else []

def layBy (j : Journal) (names : List OutletName) (r : Record) : List (OutletName × String) :=
  names.filterMap fun name => ((j.outlet name).lay? r).map fun line => (name, line)

/-- What has been laid out: by the outlets of the library's channel, by those of the channel above all
others, and for want of any outlet. -/
structure Lines where
  own : List (OutletName × String) := []
  above : List (OutletName × String) := []
  last : List String := []
deriving DecidableEq

def deliverAll (j : Journal) (records : List Record) : Lines where
  own := records.flatMap fun r => j.layBy (j.attachedTo r.channel) r
  above := records.flatMap (j.layBy j.topAttached)
  last := records.filterMap fun r =>
    if (j.attachedTo r.channel ++ j.topAttached).isEmpty then Outlet.lastResort.lay? r else none

/-- Writes a record. -/
def write (j : Journal) (r : Record) : Lines × Journal :=
  let kept := j.keeps r.channel r.level
  (j.deliverAll (if kept then [r] else []),
    { j with verdicts := ((r.channel, r.level.toInt), kept) :: j.verdicts })

end Journal

end MaximalCliques
