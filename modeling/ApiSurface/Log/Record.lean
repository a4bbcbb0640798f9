/-
ApiSurface.Log.Record — log records, and computations that leave them.

A record says how grave it is, which component it comes from, and what happened.
A `Report` is a computation that leaves records behind whether it succeeds or
fails: its outcome is a result or a fault, and the records before a fault stay.
-/

namespace ApiSurface

namespace Log

/-- How grave a record is: the higher the rank, the graver. -/
structure Level where
  rank : Int
deriving DecidableEq

namespace Level

def debug : Level := ⟨10⟩

def info : Level := ⟨20⟩

def warning : Level := ⟨30⟩

def error : Level := ⟨40⟩

def critical : Level := ⟨50⟩

/-- The levels that have a name of their own. -/
def named : List (Int × String) :=
  [(0, "NOTSET"), (10, "DEBUG"), (20, "INFO"), (30, "WARNING"), (40, "ERROR"), (50, "CRITICAL")]

/-- The name of a level in log lines. -/
def name (level : Level) : String :=
  (named.lookup level.rank).getD ("Level " ++ toString level.rank)

/-- Whether a level is as grave as a threshold. -/
def reaches (level threshold : Level) : Bool := threshold.rank ≤ level.rank

theorem reaches_iff {level threshold : Level} :
    level.reaches threshold = true ↔ threshold.rank ≤ level.rank := decide_eq_true_iff

end Level

/-- The name that all loggers share. -/
def rootName : String := "apiscan"

/-- The name of a component's logger; the empty component has the shared one. -/
def loggerName (component : Option String) : String :=
  match component with
  | none | some "" => rootName
  | some c => rootName ++ "." ++ c

/-- One log record. -/
structure Record where
  level : Level
  /-- The name of the logger. -/
  logger : String
  message : String
  /-- The name of the thread that left the record. -/
  thread : String
deriving DecidableEq

/-- The thread that a run starts in. -/
def mainThread : String := "MainThread"

/-- A record of a component. -/
def record (level : Level) (component message : String) : Record :=
  ⟨level, loggerName (some component), message, mainThread⟩

end Log

/-- A computation that leaves log records, whether it succeeds or fails. -/
structure Report (ε α : Type) where
  records : List Log.Record
  outcome : Except ε α

namespace Report

variable {ε α β : Type}

/-- A result without any record. -/
protected def pure (a : α) : Report ε α := ⟨[], .ok a⟩

/-- One computation after another; a fault of the first ends both. -/
protected def bind (x : Report ε α) (f : α → Report ε β) : Report ε β :=
  match x.outcome with
  | .ok a =>
    let y := f a
    ⟨x.records ++ y.records, y.outcome⟩
  | .error e => ⟨x.records, .error e⟩

instance : Monad (Report ε) where
  pure := Report.pure
  bind := Report.bind

/-- An outcome without any record. -/
def ofExcept (e : Except ε α) : Report ε α := ⟨[], e⟩

/-- One record. -/
def log (r : Log.Record) : Report ε Unit := ⟨[r], .ok ()⟩

/-- A debugging record of a component. -/
def debug (component message : String) : Report ε Unit := log (Log.record .debug component message)

/-- An informing record of a component. -/
def info (component message : String) : Report ε Unit := log (Log.record .info component message)

/-- The outcome of a sequence: that of the second part after the result of the first. -/
@[simp] theorem outcome_bind (x : Report ε α) (f : α → Report ε β) :
    (x >>= f).outcome = x.outcome >>= fun a => (f a).outcome := by
  cases x with
  | mk records outcome => cases outcome <;> rfl

@[simp] theorem outcome_pure (a : α) : (pure a : Report ε α).outcome = .ok a := rfl

@[simp] theorem outcome_ofExcept (e : Except ε α) : (ofExcept e).outcome = e := rfl

@[simp] theorem outcome_log (r : Log.Record) : (log r : Report ε Unit).outcome = .ok () := rfl

@[simp] theorem outcome_debug (component message : String) :
    (debug component message : Report ε Unit).outcome = .ok () := rfl

@[simp] theorem outcome_info (component message : String) :
    (info component message : Report ε Unit).outcome = .ok () := rfl

/-- A sequence succeeds exactly when both parts do. -/
theorem outcome_bind_eq_ok {x : Report ε α} {f : α → Report ε β} {b : β} :
    (x >>= f).outcome = .ok b ↔ ∃ a, x.outcome = .ok a ∧ (f a).outcome = .ok b := by
  rw [outcome_bind]
  cases h : x.outcome with
  | error why => simp [bind, Except.bind]
  | ok a => simp [bind, Except.bind]

/-- Another fault in place of the one that ended a computation. -/
def mapFault {ε' : Type} (f : ε → ε') (x : Report ε α) : Report ε' α :=
  ⟨x.records, x.outcome.mapError f⟩

/-- Another fault does not make a failure a success. -/
theorem outcome_mapFault_eq_ok {ε' : Type} {f : ε → ε'} {x : Report ε α} {a : α} :
    (x.mapFault f).outcome = .ok a ↔ x.outcome = .ok a := by
  change Except.mapError f x.outcome = .ok a ↔ x.outcome = .ok a
  cases x.outcome with
  | error e => constructor <;> intro h <;> cases h
  | ok b => constructor <;> intro h <;> cases h <;> rfl

end Report

end ApiSurface
