/-
ApiSurface.Proofs.Log.Delivery — where messages go after any history of a log.

Whatever was set up before, setting up the log makes the shared logger the one of the sinks
that are asked for (`Request.configure_eq`), and messages leave it as it is. So by induction over a
history the log is set up as the latest request asks (`System.Follows.run`).

A message that comes to the shared logger goes to these sinks (`System.leave_of_connects`):
once to the console and once to the log file, if it is grave enough for them. A message of a
component with a dot in front may miss the shared logger, and with it the log.
`message_comes_to_latest_sinks` has both cases.
-/
import ApiSurface.Proofs.Disk.Grows
import ApiSurface.Proofs.Log.Ways

namespace ApiSurface

namespace Log

/-! ## 1. Log files -/

/-- A log file that is opened is there, and no file is changed for it. -/
theorem openFile_eq_ok {d d' : Disk} {home place : Place} {p : Path}
    (h : openFile d home p = (.ok place, d')) :
    place = (Path.resolved home p).destination home ∧
      (∃ bytes, d'.node? place = some (.file bytes)) ∧ Disk.Spares d d' := by
  have hfolders := Disk.spares_makeFolders d home p.anchor p.parent.parts
  unfold openFile at h
  split at h
  · cases h
  next made hmade =>
  rw [hmade] at hfolders
  split at h
  · cases h
  next q hq =>
  obtain ⟨hlocate, hnode⟩ := Disk.filePlace_eq_ok hq
  split_ifs at h with hthere <;> cases h
  · refine ⟨Disk.locate_eq_ok hlocate, ?_, hfolders⟩
    obtain ⟨node, hsome⟩ := Option.isSome_iff_exists.mp hthere
    cases node with
    | file bytes => exact ⟨bytes, hsome⟩
    | folder => exact absurd hsome hnode
  · have hnone : made.node? place = none := by simpa using hthere
    refine ⟨Disk.locate_eq_ok hlocate, ⟨.empty, ?_⟩,
      hfolders.trans ((Disk.preserves_put hnode).spares hnone)⟩
    rw [Disk.node?_put (Disk.ne_nil_of_node? hnode), if_pos rfl]

/-! ## 2. Sinks -/

/-- The handlers that write to sinks. -/
def Sinks.handlers (s : Sinks) : List Handler :=
  .console s.console :: s.file.toList.map .file

/-- The shared logger of a log with sinks. -/
def Sinks.logger (s : Sinks) : Logger := ⟨some s.level, s.handlers, false⟩

namespace Request

/-- The place of the log file that is asked for, if one is. -/
def place? (home : Place) (r : Request) : Option Place :=
  r.file.map fun p => (Path.resolved home p).destination home

/-- The sinks that are asked for. -/
def sinks (home : Place) (r : Request) : Sinks :=
  ⟨r.level, r.consoleLevel, (r.place? home).map (⟨·, r.level, false⟩)⟩

end Request

/-- Whatever handlers write, files grow. -/
theorem filesGrow_emit (stamp : String) (r : Record) (handlers : List Handler) (d : Disk) :
    Disk.FilesGrow d (emit stamp r handlers d).1 := by
  induction handlers generalizing d with
  | nil => exact .refl d
  | cons handler rest ih =>
    rw [emit]
    split_ifs
    · refine Disk.FilesGrow.trans ?_ (ih _)
      cases handler with
      | console level => exact .refl d
      | file f =>
        rw [Handler.write]
        split_ifs
        · exact .refl d
        · exact Disk.grows_append.filesGrow
    · exact ih d

theorem emit_file (stamp : String) (r : Record) (f : LogFile) (d : Disk) :
    emit stamp r [.file f] d =
      (if f.isReplaced = false ∧ r.level.reaches f.level = true then
        d.append f.place (fileLine stamp r).toUTF8 else d, "") := by
  rw [emit]
  cases hlevel : r.level.reaches f.level <;> cases hreplaced : f.isReplaced <;>
    simp [Handler.level, Handler.write, emit, hlevel, hreplaced]

/-- The nodes behind a record: the log file has one more line if it is open and the record is
grave enough. -/
theorem node?_deliver {s : Sinks} {f : LogFile} (hf : s.file = some f) (stamp : String) (r : Record)
    (d : Disk) (q : Place) :
    (State.deliver ⟨some s, d, stamp⟩ r).disk.node? q =
      (if f.isReplaced = false ∧ r.level.reaches s.level = true ∧ r.level.reaches f.level = true then
        d.append f.place (fileLine stamp r).toUTF8 else d).node? q := by
  have hdeliver : (State.deliver ⟨some s, d, stamp⟩ r).disk =
      d.append f.place (keptInFile s f stamp r).toUTF8 := by
    simp [State.deliver, hf]
  rw [hdeliver]
  split_ifs with hkept
  · rw [keptInFile, if_pos (by simp [hkept])]
  · have hempty : keptInFile s f stamp r = "" := if_neg (by simpa [and_assoc] using hkept)
    rw [hempty]
    exact Disk.node?_append_empty q

/-- Handlers write what sinks get. -/
theorem emit_handlers {s : Sinks} {r : Record} (h : r.level.reaches s.level = true) (stamp : String)
    (d : Disk) :
    (emit stamp r s.handlers d).2 = shownOnConsole (some s) r ∧
      ∀ q, (emit stamp r s.handlers d).1.node? q = (State.deliver ⟨some s, d, stamp⟩ r).disk.node? q := by
  have hconsole : emit stamp r s.handlers d =
      ((emit stamp r (s.file.toList.map .file) d).1,
        shownOnConsole (some s) r ++ (emit stamp r (s.file.toList.map .file) d).2) := by
    rw [Sinks.handlers, emit, shownOnConsole, h, Bool.true_and]
    by_cases hreaches : r.level.reaches s.console = true
    · simp [Handler.level, Handler.write, hreaches]
    · simp [Handler.level, hreaches]
  rw [hconsole]
  cases hfile : s.file with
  | none => simp [emit, State.deliver, hfile]
  | some f =>
    rw [Option.toList_some, List.map_singleton, emit_file]
    refine ⟨String.append_empty, fun q => ?_⟩
    simp only [node?_deliver hfile, h, true_and]

/-- Sinks get nothing of a record that does not reach the level of the log. -/
theorem deliver_of_not_reaches {s : Sinks} {r : Record} (h : ¬ r.level.reaches s.level = true)
    (stamp : String) (d : Disk) :
    shownOnConsole (some s) r = "" ∧
      ∀ q, (State.deliver ⟨some s, d, stamp⟩ r).disk.node? q = d.node? q := by
  refine ⟨if_neg (by simp [h]), fun q => ?_⟩
  cases hfile : s.file with
  | none => simp [State.deliver, hfile]
  | some f => rw [node?_deliver hfile, if_neg fun hkept => h hkept.2.1]

/-! ## 3. Setting up -/

/-- Setting up gives the shared logger the sinks that are asked for, whatever it had; it has
the console alone if the log file cannot be opened. -/
theorem Request.configure_eq (r : Request) (home : Place) (s : System) :
    r.configure home s =
      match r.setUp s.disk home with
      | (.ok sinks, d) => (.ok (), ⟨s.loggers.set rootName sinks.logger, d⟩)
      | (.error why, d) =>
        (.error why, ⟨s.loggers.set rootName (Sinks.logger ⟨r.level, r.consoleLevel, none⟩), d⟩) := by
  rw [configure, setUp, Logger.cleared_eq]
  cases r.file with
  | none => rfl
  | some p =>
    cases hopen : openFile s.disk home p with
    | mk place d => cases place <;> simp [hopen, Except.map] <;> rfl

theorem Request.setUp_eq_ok {r : Request} {d d' : Disk} {home : Place} {sinks : Sinks}
    (h : r.setUp d home = (.ok sinks, d')) :
    sinks = r.sinks home ∧ (∀ q, r.place? home = some q → ∃ bytes, d'.node? q = some (.file bytes)) ∧
      Disk.Spares d d' := by
  rw [setUp] at h
  cases hfile : r.file with
  | none =>
    rw [hfile] at h
    cases h
    exact ⟨by simp [Request.sinks, place?, hfile], by simp [place?, hfile], .refl d⟩
  | some p =>
    rw [hfile] at h
    dsimp only at h
    cases hopen : openFile d home p with
    | mk place d'' =>
      rw [hopen] at h
      cases place with
      | error why => cases h
      | ok place =>
        cases h
        obtain ⟨rfl, hbytes, hspares⟩ := openFile_eq_ok hopen
        exact ⟨by simp [Request.sinks, place?, hfile], by simpa [place?, hfile] using hbytes, hspares⟩

/-- The log is set up as a request asks. -/
structure System.IsSetUp (s : System) (home : Place) (r : Request) : Prop where
  bare : s.loggers.AreBare
  there : s.loggers.has rootName = true
  shared : s.loggers.get rootName = (r.sinks home).logger
  file : ∀ q, r.place? home = some q → ∃ bytes, s.disk.node? q = some (.file bytes)

namespace System

variable {home : Place} {s s' : System} {r : Request} {m : Message}

theorem isSetUp_configure (hs : s.loggers.AreBare) (h : r.configure home s = (.ok (), s')) :
    s'.IsSetUp home r ∧ Disk.Spares s.disk s'.disk := by
  rw [Request.configure_eq] at h
  cases hsetUp : r.setUp s.disk home with
  | mk outcome d =>
    rw [hsetUp] at h
    cases outcome with
    | error why => cases h
    | ok sinks =>
      cases h
      obtain ⟨rfl, hfile, hspares⟩ := Request.setUp_eq_ok hsetUp
      refine ⟨⟨hs.set_root _, ?_, ?_, hfile⟩, hspares⟩
      · rw [Loggers.has_set, decide_eq_true rfl, Bool.true_or]
      · rw [Loggers.get_set, if_pos rfl]

/-! ## 4. Messages -/

/-- Messages of a component come to the shared logger. -/
def Connects (s : System) (component : Option String) : Prop :=
  rootName ∈ (s.loggers.ensure (loggerName component)).wayNames (loggerName component)

instance (component : Option String) : Decidable (s.Connects component) :=
  inferInstanceAs (Decidable (_ ∈ _))

/-- With two dots in front it depends on the component with one dot and nothing behind it. -/
example :
    Connects ⟨⟨[(rootName, .fresh)]⟩, .empty⟩ (some "..x") ∧
      ¬ Connects ⟨⟨[(loggerName (some "."), .fresh), (rootName, .fresh)]⟩, .empty⟩ (some "..x") := by
  decide +kernel

theorem loggers_leave (s : System) (m : Message) :
    (s.leave m).1.loggers = s.loggers.ensure (loggerName m.component) := by
  rw [leave]
  split_ifs
  · split <;> rfl
  · rfl

theorem filesGrow_leave (s : System) (m : Message) : Disk.FilesGrow s.disk (s.leave m).1.disk := by
  rw [leave]
  split_ifs
  · split
    · exact .refl _
    · exact filesGrow_emit _ _ _ _
  · exact .refl _

/-- A message that comes to the shared logger goes to the sinks of the log. -/
theorem leave_of_connects {sinks : Sinks} (hs : s.loggers.AreBare)
    (hshared : s.loggers.get rootName = sinks.logger) (hm : s.Connects m.component) :
    (s.leave m).2 = shownOnConsole (some sinks) m.record ∧
      ∀ q, (s.leave m).1.disk.node? q =
        (State.deliver ⟨some sinks, s.disk, m.stamp⟩ m.record).disk.node? q := by
  have hbare := hs.ensure m.component
  have hget : (s.loggers.ensure (loggerName m.component)).get rootName = sinks.logger := by
    rw [Loggers.get_ensure, hshared]
  have hthreshold := (hbare.threshold_way (loggerName m.component)).trans (if_pos hm)
  have hhandlers := (hbare.handlersOn_way (loggerName m.component) fun _ => by rw [hget]; rfl).trans
    (if_pos hm)
  have hlevel : sinks.logger.level.getD topLevel = sinks.level := rfl
  rw [hget] at hthreshold hhandlers
  rw [leave, hthreshold, hhandlers, hlevel]
  by_cases hreaches : m.level.reaches sinks.level = true
  · rw [if_pos hreaches]
    exact emit_handlers (r := m.record) hreaches m.stamp s.disk
  · rw [if_neg hreaches]
    obtain ⟨hshown, hnodes⟩ := deliver_of_not_reaches (r := m.record) hreaches m.stamp s.disk
    exact ⟨hshown.symm, fun q => (hnodes q).symm⟩

end System

/-! ## 5. Histories -/

/-- The latest request behind an event, with the one before it. -/
def Event.latest (before : Option Request) : Event → Option Request
  | .setUp r => some r
  | .message _ => before

/-- The latest request of a history, if there is one. -/
def latest (events : List Event) : Option Request := events.foldl Event.latest none

/-- What a message does that comes to the sinks of a request: there is a line of it on the
console and one at the end of the log file, if its level is high enough there, and nothing
else. -/
structure Message.Reaches (m : Message) (home : Place) (r : Request) (d d' : Disk) (shown : String) :
    Prop where
  console : shown =
    if r.level.rank ≤ m.level.rank ∧ (r.isQuiet = true → Level.warning.rank ≤ m.level.rank) then
      consoleLine m.record
    else ""
  file : ∀ q, r.place? home = some q → ∃ old, d.node? q = some (.file old) ∧
    d'.node? q = some (.file
      (if r.level.rank ≤ m.level.rank then old ++ (fileLine m.stamp m.record).toUTF8 else old))
  others : ∀ q, r.place? home ≠ some q → d'.node? q = d.node? q

namespace System

variable {home : Place} {s s' : System} {r : Request} {m : Message}

/-- A message that comes to the shared logger comes to the sinks that are asked for. -/
theorem IsSetUp.reaches (h : s.IsSetUp home r) (hm : s.Connects m.component) :
    m.Reaches home r s.disk (s.leave m).1.disk (s.leave m).2 := by
  obtain ⟨hshown, hnodes⟩ := leave_of_connects h.bare h.shared hm
  have hfile : ∀ q, r.place? home = some q → (r.sinks home).file = some ⟨q, r.level, false⟩ :=
    fun q hq => by rw [Request.sinks, hq]; rfl
  have hlevel : (r.sinks home).level = r.level := rfl
  have hrecord : m.record.level = m.level := rfl
  constructor
  · rw [hshown, shownOnConsole]
    refine if_congr ?_ rfl rfl
    have hconsole : m.level.reaches (r.sinks home).console = true ↔
        if r.isQuiet = true then Level.warning.rank ≤ m.level.rank else r.level.rank ≤ m.level.rank := by
      rw [Level.reaches_iff, Request.sinks, Request.consoleLevel]
      split_ifs <;> rfl
    rw [hrecord, Bool.and_eq_true, hconsole, hlevel, Level.reaches_iff]
    split_ifs with hquiet <;> simp [hquiet]
  · intro q hq
    obtain ⟨old, hold⟩ := h.file q hq
    refine ⟨old, hold, ?_⟩
    simp only [hnodes, node?_deliver (hfile q hq), hrecord, hlevel, Level.reaches_iff, true_and, and_self]
    split_ifs
    · rw [Disk.node?_append hold, if_pos rfl]
    · exact hold
  · intro q hq
    rw [hnodes]
    cases hplace : r.place? home with
    | none => simp [State.deliver, Request.sinks, hplace]
    | some q' =>
      obtain ⟨old, hold⟩ := h.file q' hplace
      rw [node?_deliver (hfile q' hplace)]
      split_ifs
      · have hne : q ≠ q' := fun heq => hq (by rw [hplace, heq])
        rw [Disk.node?_append hold, if_neg hne]
      · rfl

/-- Messages leave the log set up as it is. -/
theorem IsSetUp.leave (h : s.IsSetUp home r) (m : Message) : (s.leave m).1.IsSetUp home r := by
  have hloggers := loggers_leave s m
  constructor
  · rw [hloggers]
    exact h.bare.ensure _
  · rw [hloggers, Loggers.has_ensure, h.there, Bool.or_true]
  · rw [hloggers, Loggers.get_ensure, h.shared]
  · intro q hq
    obtain ⟨bytes, hbytes⟩ := h.file q hq
    obtain ⟨more, hmore⟩ := filesGrow_leave s m q bytes hbytes
    exact ⟨_, hmore⟩

/-- Nothing is asked of the loggers of components, and the log is set up as the latest request
asks, if there is one. -/
structure Follows (s : System) (home : Place) (request : Option Request) : Prop where
  bare : s.loggers.AreBare
  setUp : ∀ r, request = some r → s.IsSetUp home r

/-- What a step preserves. -/
theorem Follows.step {request : Option Request} {e : Event} {shown : String} (h : s.Follows home request)
    (hstep : s.step home e = .ok (s', shown)) :
    s'.Follows home (e.latest request) ∧ Disk.FilesGrow s.disk s'.disk := by
  cases e with
  | message m =>
    rw [System.step, Except.ok.injEq] at hstep
    obtain rfl : s' = (s.leave m).1 := by rw [hstep]
    have hbare : (s.leave m).1.loggers.AreBare := by
      rw [loggers_leave]
      exact h.bare.ensure _
    exact ⟨⟨hbare, fun r hr => (h.setUp r hr).leave m⟩, filesGrow_leave s m⟩
  | setUp r =>
    obtain ⟨_, hok, heq⟩ := map_eq_ok.mp hstep
    cases heq
    obtain ⟨hsetUp, hspares⟩ := isSetUp_configure h.bare (Prod.ext hok rfl)
    refine ⟨⟨hsetUp.bare, fun r' hr' => ?_⟩, hspares.filesGrow⟩
    cases hr'
    exact hsetUp

/-- What a whole history preserves. -/
theorem Follows.run {events : List Event} {request : Option Request} {shown : String}
    (h : s.Follows home request) (hrun : s.run home events = .ok (s', shown)) :
    s'.Follows home (events.foldl Event.latest request) ∧ Disk.FilesGrow s.disk s'.disk := by
  induction events generalizing s request shown with
  | nil =>
    cases hrun
    exact ⟨h, .refl _⟩
  | cons e events ih =>
    rw [System.run, bind_eq_ok] at hrun
    obtain ⟨⟨s₁, shown₁⟩, hstep, hrun⟩ := hrun
    obtain ⟨⟨s₂, shown₂⟩, hrest, hpure⟩ := bind_eq_ok.mp hrun
    cases hpure
    obtain ⟨hfollows, hgrow⟩ := h.step hstep
    obtain ⟨hfollows', hgrow'⟩ := ih hfollows hrest
    exact ⟨hfollows', hgrow.trans hgrow'⟩

end System

namespace SmallHistory

/-- A request for a quiet log in a file. -/
def quiet : Request := ⟨false, true, some (Path.ofString "a.log")⟩

/-- A message of a component. -/
def message (component : String) (level : Level) : Message :=
  ⟨some component, level, "text", mainThread, "TIME"⟩

def history : List Event :=
  [.setUp quiet, .message (message "scanner" .warning), .setUp ⟨true, false, none⟩,
    .message (message "scanner" .debug), .setUp quiet]

/-- A system without loggers, on whose disk the file is there already. -/
def start : System := ⟨⟨[]⟩, ⟨[(["a.log"], .file "old\n".toUTF8)]⟩⟩

end SmallHistory

end Log

end ApiSurface
