/-
ApiSurface.Scan.Pool — the scans of several artifacts.

Artifacts are scanned one after another, and the first fault ends the run. Or
several workers scan them at the same time: then all scans are carried through,
in an order of steps that nobody controls, and the run has the fault of the
first source that has one. A schedule is such an order, given by the source that
takes the next step each time. A scan of all sources goes by the schedule in which the
workers keep step with each other.
-/
import ApiSurface.Scan.Target

namespace ApiSurface.Scan

/-- What a run gives: the written files or the first fault, and the world after it. -/
structure Result where
  outcome : Except Fault (List Path)
  world : World

/-! ## 1. One after another -/

/-- Scans sources in order until one fails. -/
def inOrder (s : Settings) (h : Host) : List Path → World → Result
  | [], w => ⟨.ok [], w⟩
  | source :: rest, w =>
    match scan s h source w with
    | (.finished (.error why), w') => ⟨.error why, w'⟩
    | (_, w') =>
      let others := inOrder s h rest w'
      ⟨others.outcome.map (s.outputPath source :: ·), others.world⟩

/-! ## 2. At the same time -/

/-- Several scans at a time: their stages, in the order of the sources, and the world
that they share. -/
structure Pool where
  stages : List (Path × Stage)
  world : World

namespace Pool

/-- All scans before their first step. -/
def start (sources : List Path) (w : World) : Pool := ⟨sources.map (·, .waiting), w⟩

/-- The name of the thread that scans the source with a given index. -/
def workerName (workers index : Nat) : String :=
  "ThreadPoolExecutor-0_" ++ toString (index % workers)

/-- One step of the scan with a given index; there may be none. -/
def step (s : Settings) (h : Host) (workers : Nat) (pool : Pool) (index : Nat) : Pool :=
  match pool.stages[index]? with
  | none => pool
  | some (source, stage) =>
    let (stage', world) := Scan.step s h (workerName workers index) source stage pool.world
    ⟨pool.stages.set index (source, stage'), world⟩

/-- The pool after the steps of a schedule. -/
def run (s : Settings) (h : Host) (workers : Nat) (schedule : List Nat) (pool : Pool) : Pool :=
  schedule.foldl (step s h workers) pool

/-- The outcomes of all scans, or the first fault; scans that are not finished count
as none. -/
def outcome (pool : Pool) : Except Fault (List Path) :=
  (pool.stages.filterMap (·.2.outcome?)).mapM id

/-- The schedule in which as many scans as there are workers go through their steps side by
side, and then the next ones. -/
def evenSchedule (workers count : Nat) : List Nat :=
  (List.range (count / workers + 1)).flatMap fun round =>
    (List.replicate stepCount ((List.range workers).map (round * workers + ·))).flatten

end Pool

/-! ## 3. Runs -/

/-- Scans sources with as many workers as the settings allow. The schedule is the
order in which the workers take their steps. -/
def atOnce (s : Settings) (h : Host) (sources : List Path) (schedule : List Nat) (w : World) :
    Result :=
  let announced := Log.record .debug "scanner"
    ("Scanning " ++ toString sources.length ++ " artifacts with " ++ toString s.jobs ++ " workers")
  let workers := min s.jobs sources.length
  let pool := (Pool.start sources (w.leave Log.mainThread [announced])).run s h workers schedule
  ⟨pool.outcome, pool.world⟩

/-- Whether a run scans its sources one after another. -/
def isSequential (s : Settings) : Bool := s.jobs ≤ 1 || s.sources.length ≤ 1

/-- The order of the steps in a scan of all sources with several workers. -/
def scheduleOf (s : Settings) : List Nat :=
  Pool.evenSchedule (min s.jobs s.sources.length) s.sources.length

/-- Scans all sources of the settings. -/
def scanAll (s : Settings) (h : Host) (w : World) : Result :=
  if isSequential s then inOrder s h s.sources w
  else atOnce s h s.sources (scheduleOf s) w

end ApiSurface.Scan
