import MaximalCliques.Enumeration.Parallel

/-!
# Branches on a pool of workers

The branches of an enumeration wait for a worker, are searched side by side, one request at a time, and
end.  A schedule says which branch makes the next move.

* **`Settings.hasRoom`** — whether one more branch may run.
* **`Task`** — a branch and where it stands; **`Pool`** — the branches and what they share.
* **`Move`** — a branch starts, makes its next request, or is dropped while it waits.
* **`Pool.step`** — what a move does, if it is possible; **`Pool.perform`** — what a schedule does.
* **`enumerateOnPool`** — how an enumeration stands after a schedule.
-/

namespace MaximalCliques

/-- Is there room for one more branch beside those that are running? -/
def Settings.hasRoom (s : Settings) (running : Nat) : Bool :=
  match s.parallelWorkers with
  | .absent => true
  | workers => match Comparison.below.holds (.integer running) workers with
    | .ok fits => fits
    | .error _ => false

/-- Where a branch stands. -/
inductive Stage where
  | waiting
  | running (rest : Run Vertex Unit)
  | ended (ending : Ending)

def Stage.after : Except Fault (Option (Run Vertex Unit)) → Stage
  | .ok (some rest) => .running rest
  | .ok none => .ended .stopped
  | .error e => .ended (.failed e)

/-- A branch and where it stands; what it counts, asks for and finds is its own. -/
structure Task where
  root : SearchNode Vertex
  stage : Stage := .waiting
  progress : Progress := {}

namespace Task

def isRunning (t : Task) : Bool :=
  match t.stage with
  | .running _ => true
  | _ => false

def isBad (t : Task) : Bool :=
  match t.stage with
  | .ended ending => ending.isBad
  | _ => false

def branch? (t : Task) : Option Branch :=
  match t.stage with
  | .ended ending =>
    some { root := t.root, ending, found := t.progress.found.reverse, counters := t.progress.counters }
  | _ => none

end Task

/-- The branches of an enumeration, the number of polls that they have made, and the state that they
share. -/
structure Pool (σ : Type) where
  tasks : List Task
  polls : Nat := 0
  world : σ

/-- A move of the branch with a number. -/
inductive Move where
  /-- A worker takes the branch on. -/
  | start (i : Nat)
  /-- The branch makes its next request, or ends if it has none. -/
  | work (i : Nat)
  /-- The branch, which is waiting, is dropped. -/
  | drop (i : Nat)
deriving DecidableEq, Repr

namespace Pool

variable {σ : Type}

def running (pool : Pool σ) : Nat := pool.tasks.countP Task.isRunning

def put (pool : Pool σ) (i : Nat) (t : Task) : Pool σ := { pool with tasks := pool.tasks.set i t }

/-- What the next request of a branch leads to. -/
def request (s : Subject) (g : Access σ) (stop : Nat → Query σ Bool) (pool : Pool σ) (i : Nat)
    (t : Task) (rest : Run Vertex Unit) : Pool σ :=
  let asked := Searching.askFrom (rest.step (s.conductor g stop)) { t.progress with polls := pool.polls }
  let ((answer, progress), world) := asked.run pool.world
  { tasks := pool.tasks.set i { t with stage := .after answer, progress }, polls := progress.polls
    world }

/-- What a move does.  A branch may start if there is room, and is dropped only after another one has
come to a bad end. -/
def step (s : Subject) (g : Access σ) (settings : Settings) (stop : Nat → Query σ Bool)
    (pool : Pool σ) : Move → Option (Pool σ)
  | .start i => do
    let t ← pool.tasks[i]?
    match t.stage with
    | .waiting =>
      if settings.hasRoom pool.running then
        some (pool.put i { t with stage := .running (Subject.searchBelow settings t.root) })
      else none
    | _ => none
  | .work i => do
    let t ← pool.tasks[i]?
    match t.stage with
    | .running (.done ()) => some (pool.put i { t with stage := .ended .finished })
    | .running rest => some (pool.request s g stop i t rest)
    | _ => none
  | .drop i => do
    let t ← pool.tasks[i]?
    match t.stage with
    | .waiting =>
      if pool.tasks.any Task.isBad then some (pool.put i { t with stage := .ended .dropped })
      else none
    | _ => none

/-- What a schedule does, if all its moves are possible. -/
def perform (s : Subject) (g : Access σ) (settings : Settings) (stop : Nat → Query σ Bool) :
    List Move → Pool σ → Option (Pool σ)
  | [], pool => some pool
  | move :: moves, pool => do (← pool.step s g settings stop move).perform s g settings stop moves

/-- What has become of the branches, once all have ended. -/
def branches? (pool : Pool σ) : Option (List Branch) :=
  if pool.tasks.all fun t => t.branch?.isSome then some (pool.tasks.filterMap Task.branch?) else none

def ofBatch (batch : Batch) (world : σ) : Pool σ where
  tasks := batch.roots.map fun root => { root }
  world

end Pool

/-- How an enumeration stands. -/
inductive Standing (σ : Type) where
  /-- The schedule has a move that is not possible. -/
  | impossible
  | underWay (pool : Pool σ)
  | settled (branches : List Branch) (outcome : Outcome) (world : σ)

variable {σ : Type}

def Batch.standing (batch : Batch) (pool : Pool σ) : Standing σ :=
  match pool.branches? with
  | some branches =>
    .settled branches (.ofBranches batch.counters pool.polls batch.reports branches) pool.world
  | none => .underWay pool

theorem Batch.standing_ne_impossible (batch : Batch) (pool : Pool σ) :
    batch.standing pool ≠ .impossible := by
  unfold standing
  split <;> simp

/-- How the enumeration of the maximal cliques on a pool stands after a schedule. -/
def enumerateOnPool (g : Access σ) (settings : Settings) (stop : Nat → Query σ Bool)
    (counters : Counters) (moves : List Move) (world : σ) : Standing σ :=
  match (prepareBranches g settings stop counters).run world with
  | (.inl outcome, world) => if moves.isEmpty then .settled [] outcome world else .impossible
  | (.inr batch, world) =>
    match (Pool.ofBatch batch world).perform batch.subject g settings stop moves with
    | none => .impossible
    | some pool => batch.standing pool

end MaximalCliques
