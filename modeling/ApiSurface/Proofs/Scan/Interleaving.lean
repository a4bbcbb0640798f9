/-
ApiSurface.Proofs.Scan.Interleaving — runs with several workers end as runs with one.

Each scan keeps its course while others take their steps: it goes towards the outcome that
it would have alone, and what it has in its hands is what the disk would give
(`Pool.IsOnCourse`). One step keeps this up for the scan that takes it and for all others,
so every schedule does, by induction on its steps. Hence the order of the steps makes no
difference to the paths or the fault of a run, or to the files that it leaves, as long as the
inputs and the output folder are apart (`runs_end_alike`).

They must be apart in a strict sense. A path may go through a folder that a scan has to make,
and lead elsewhere; then it is there for some orders of the steps and not for others
(`interleaving_decides_outcome`).
-/
import ApiSurface.Proofs.Scan.Apart
import ApiSurface.Proofs.Scan.Rescan

namespace ApiSurface.Scan

variable {s : Settings} {h : Host} {source : Path} {stage : Stage} {w : World} {d : Disk}

/-! ## 1. Worlds between scans -/

/-- A world has come about by scans, from a world with a given disk. -/
structure World.Since (w : World) (s : Settings) (h : Host) (d : Disk) : Prop where
  steady : w.IsSteady s h
  drifts : s.Drifts h.home d w.disk

theorem World.Since.step (hw : w.Since s h d) (hsource : source ∈ s.sources) (thread : String)
    (stage : Stage) : (Scan.step s h thread source stage w).2.Since s h d := by
  obtain ⟨hd, hsteady⟩ := hw.steady.step hsource thread stage
  exact ⟨hsteady, hw.drifts.trans hd⟩

theorem World.Since.leave (hw : w.Since s h d) (thread : String) (records : List Log.Record) :
    (w.leave thread records).Since s h d := by
  obtain ⟨hev, hlogs⟩ := evolves_leave w thread records
  have hd : s.Drifts h.home w.disk (w.leave thread records).disk :=
    hev.mono hw.steady.logs (fun _ => False.elim) fun _ => False.elim
  exact ⟨hw.steady.drifts hd hlogs, hw.drifts.trans hd⟩

theorem World.since_start (ha : s.KeepsApart h.home w.disk) (ht : w.disk.IsTree)
    (hlogs : ∀ q, w.Logs q → s.Unread h.home q) : w.Since s h w.disk where
  steady := ⟨ht.leads, hlogs, fun _ => ha.unread_of_writes⟩
  drifts := .refl _

section

variable (ha : s.KeepsApart h.home d) (ht : d.IsTree)
include ha ht

/-! ## 2. One after another -/

/-- The steps of a scan lead to its outcome. -/
theorem foretold_steps (hw : w.Since s h d) (hsource : source ∈ s.sources) (n : Nat) :
    (steps s h source n .waiting w).1.Foretold s h d source := by
  induction n with
  | zero => trivial
  | succ n ih =>
    obtain ⟨hd, -, hcurrent⟩ := steps_current hw.steady hsource n
    rw [steps_succ]
    exact ih.step hcurrent ha ht (hw.drifts.trans hd) hsource Log.mainThread

theorem scan_foretold (hw : w.Since s h d) (hsource : source ∈ s.sources) :
    ∃ outcome w', scan s h source w = (.finished outcome, w') ∧
      SameEnd s.inputs outcome (outcomeAlone s h d source) ∧ w'.Since s h d := by
  obtain ⟨stage, w', hscan⟩ : ∃ stage w', scan s h source w = (stage, w') := ⟨_, _, rfl⟩
  have hforetold : (scan s h source w).1.Foretold s h d source :=
    foretold_steps ha ht hw hsource stepCount
  have hrank : stepCount ≤ (scan s h source w).1.rank := rank_steps stepCount
  obtain ⟨hd, hsteady, -⟩ := steps_current hw.steady hsource stepCount
  rw [show steps s h source stepCount .waiting w = _ from hscan] at hd hsteady
  rw [hscan] at hforetold hrank
  obtain ⟨outcome, rfl⟩ := exists_outcome_of_rank hrank
  exact ⟨outcome, w', hscan, hforetold, hsteady, hw.drifts.trans hd⟩

omit ha ht in
theorem eq_outputPath_of_outcomeAlone {output : Path} (hok : outcomeAlone s h d source = .ok output) :
    output = s.outputPath source := by
  unfold outcomeAlone at hok
  split_ifs at hok
  obtain ⟨text, -, hok⟩ := bind_eq_ok.mp hok
  obtain ⟨_, -, hok⟩ := bind_eq_ok.mp hok
  exact (Except.ok.inj hok).symm

/-- A run one after another ends as scans from the start would, up to the first fault. -/
theorem inOrder_foretold {sources : List Path} (hsources : ∀ a ∈ sources, a ∈ s.sources)
    (hw : w.Since s h d) :
    SameEnd s.inputs (inOrder s h sources w).outcome (sources.mapM (outcomeAlone s h d)) ∧
      (inOrder s h sources w).world.Since s h d := by
  induction sources generalizing w with
  | nil => exact ⟨.refl _, hw⟩
  | cons source rest ih =>
    obtain ⟨hsource, hrest⟩ := List.forall_mem_cons.mp hsources
    obtain ⟨outcome, w₁, hscan, hsame, hw₁⟩ := scan_foretold ha ht hw hsource
    rw [inOrder, hscan, List.mapM_cons]
    cases outcome with
    | error why => exact ⟨hsame.bind_error, hw₁⟩
    | ok output =>
      obtain ⟨hothers, hw₂⟩ := ih hrest hw₁
      have halone : outcomeAlone s h d source = .ok output := hsame.eq_ok_iff.mp rfl
      obtain rfl := eq_outputPath_of_outcomeAlone halone
      rw [halone]
      exact ⟨hothers.bind fun others _ => .refl _, hw₂⟩

end

/-! ## 3. At the same time -/

namespace Pool

variable {pool : Pool} {workers : Nat}

/-- All scans are up to date, and go towards the outcomes that they would have alone. -/
structure IsOnCourse (s : Settings) (h : Host) (d : Disk) (pool : Pool) : Prop where
  since : pool.world.Since s h d
  mem : ∀ (i : Nat) (source : Path) (stage : Stage), pool.stages[i]? = some (source, stage) →
    source ∈ s.sources
  foretold : ∀ (i : Nat) (source : Path) (stage : Stage),
    pool.stages[i]? = some (source, stage) → stage.Foretold s h d source
  current : ∀ (i : Nat) (source : Path) (stage : Stage),
    pool.stages[i]? = some (source, stage) → stage.IsCurrent s h source pool.world.disk

theorem isOnCourse_start {sources : List Path} (hsources : ∀ a ∈ sources, a ∈ s.sources)
    (hw : w.Since s h d) : (start sources w).IsOnCourse s h d := by
  have hstages : ∀ (i : Nat) (source : Path) (stage : Stage),
      (start sources w).stages[i]? = some (source, stage) → source ∈ s.sources ∧ stage = .waiting := by
    intro i source stage hi
    rw [start, List.getElem?_map] at hi
    obtain ⟨a, ha, hentry⟩ := Option.map_eq_some_iff.mp hi
    cases hentry
    exact ⟨hsources _ (List.mem_of_getElem? ha), rfl⟩
  refine ⟨hw, fun i source stage hi => (hstages i source stage hi).1, fun i source stage hi => ?_,
    fun i source stage hi => ?_⟩
  · rw [(hstages i source stage hi).2]
    trivial
  · rw [(hstages i source stage hi).2]
    trivial

section

variable (ha : s.KeepsApart h.home d) (ht : d.IsTree)
include ha ht

/-- A step keeps all scans on course, whichever of them takes it. -/
theorem IsOnCourse.step (hp : pool.IsOnCourse s h d) (index : Nat) :
    (pool.step s h workers index).IsOnCourse s h d := by
  cases hindex : pool.stages[index]? with
  | none =>
    rw [step_of_none hindex]
    exact hp
  | some entry =>
    obtain ⟨other, before⟩ := entry
    have hother : other ∈ s.sources := hp.mem index other before hindex
    have hworld : (pool.step s h workers index).world =
        (Scan.step s h (workerName workers index) other before pool.world).2 := by
      rw [step_of_some hindex]
    obtain ⟨hd, -⟩ := hp.since.steady.step hother (workerName workers index) before
    refine ⟨?_, fun i source stage hi => ?_, fun i source stage hi => ?_,
      fun i source stage hi => ?_⟩
    · rw [hworld]
      exact hp.since.step hother _ _
    · obtain ⟨stage', hi', -⟩ := getElem?_step hi
      exact hp.mem i source stage' hi'
    · obtain ⟨stage', hi', ⟨-, rfl⟩ | ⟨rfl, rfl⟩⟩ := getElem?_step hi
      · exact hp.foretold i source _ hi'
      · exact (hp.foretold index source stage' hi').step (hp.current index source stage' hi') ha ht
          hp.since.drifts (hp.mem index source stage' hi') _
    · rw [hworld]
      obtain ⟨stage', hi', ⟨-, rfl⟩ | ⟨rfl, rfl⟩⟩ := getElem?_step hi
      · -- Another scan has taken the step.
        exact (hp.current i source _ hi').drifts hp.since.steady.leads hp.since.steady.writes
          (hp.mem i source _ hi') hd
      · obtain ⟨rfl, rfl⟩ := Prod.mk.inj (Option.some_inj.mp (hindex.symm.trans hi'))
        exact (hp.current index _ _ hi').step hp.since.steady hother _

/-- Every schedule keeps all scans on course. -/
theorem IsOnCourse.run (hp : pool.IsOnCourse s h d) (schedule : List Nat) :
    (pool.run s h workers schedule).IsOnCourse s h d := by
  induction schedule generalizing pool with
  | nil => exact hp
  | cons index schedule ih => exact ih (hp.step ha ht index)

end

/-- Each scan is finished, or an earlier one has failed. Scans that have not started when a run
gives up its outcome are not carried through. -/
def IsThrough (stages : List (Path × Stage)) : Prop :=
  ∀ (i : Nat) (source : Path) (stage : Stage), stages[i]? = some (source, stage) →
    (∃ outcome, stage = .finished outcome) ∨
      ∃ j other why, j < i ∧ stages[j]? = some (other, .finished (.error why))

theorem isThrough_of_finished {stages : List (Path × Stage)}
    (hdone : ∀ entry ∈ stages, ∃ outcome, entry.2 = .finished outcome) : IsThrough stages :=
  fun _ _ _ hi => .inl (hdone _ (List.mem_of_getElem? hi))

/-- The first scan is finished, and if it has succeeded the others are through. -/
theorem IsThrough.cons {entry : Path × Stage} {stages : List (Path × Stage)}
    (ht : IsThrough (entry :: stages)) :
    ∃ outcome, entry.2 = .finished outcome ∧ ∀ output, outcome = .ok output → IsThrough stages := by
  obtain ⟨source, stage⟩ := entry
  obtain ⟨outcome, rfl⟩ : ∃ outcome, stage = .finished outcome := by
    rcases ht 0 source stage rfl with hfinished | ⟨j, -, -, hj, -⟩
    · exact hfinished
    · exact absurd hj (Nat.not_lt_zero j)
  refine ⟨outcome, rfl, fun output hok i other stage hi => ?_⟩
  rcases ht (i + 1) other stage hi with hfinished | ⟨j, a, why, hj, hfailed⟩
  · exact .inl hfinished
  · cases j with
    | zero =>
      rw [hok] at hfailed
      cases hfailed
    | succ j => exact .inr ⟨j, a, why, Nat.lt_of_succ_lt_succ hj, hfailed⟩

/-- A run that is through ends as scans from the start would, up to the first fault. -/
theorem outcome_foretold {stages : List (Path × Stage)} (ht : IsThrough stages)
    (hf : ∀ entry ∈ stages, entry.2.Foretold s h d entry.1) :
    SameEnd s.inputs ((stages.filterMap (·.2.outcome?)).mapM id)
      ((stages.map (·.1)).mapM (outcomeAlone s h d)) := by
  induction stages with
  | nil => exact .refl _
  | cons entry stages ih =>
    obtain ⟨source, stage⟩ := entry
    obtain ⟨outcome, hfinished, hrest⟩ := ht.cons
    obtain ⟨hfirst, hothers⟩ := List.forall_mem_cons.mp hf
    dsimp only at hfinished
    subst hfinished
    have hsame : SameEnd s.inputs outcome (outcomeAlone s h d source) := hfirst
    have hhead : Stage.outcome? (.finished outcome) = some outcome := rfl
    rw [List.filterMap_cons, hhead, List.mapM_cons, List.map_cons, List.mapM_cons]
    cases outcome with
    | error why => exact hsame.bind_error
    | ok output =>
      rw [show outcomeAlone s h d source = .ok output from hsame.eq_ok_iff.mp rfl]
      exact (ih (hrest output rfl) hothers).bind fun others _ => .refl _

/-- Where a run that is through gives paths, all scans are finished. -/
theorem finished_of_outcome {stages : List (Path × Stage)} (ht : IsThrough stages)
    {paths : List Path} (hok : (stages.filterMap (·.2.outcome?)).mapM id = .ok paths) :
    ∀ entry ∈ stages, ∃ outcome, entry.2 = .finished outcome := by
  induction stages generalizing paths with
  | nil => exact nofun
  | cons entry stages ih =>
    obtain ⟨outcome, hfinished, hrest⟩ := ht.cons
    have hhead : entry.2.outcome? = some outcome := by rw [hfinished]; rfl
    rw [List.filterMap_cons, hhead, List.mapM_cons] at hok
    obtain ⟨output, houtput, hok⟩ := bind_eq_ok.mp hok
    obtain ⟨others, hothers, -⟩ := bind_eq_ok.mp hok
    exact List.forall_mem_cons.mpr ⟨⟨outcome, hfinished⟩, ih (hrest output houtput) hothers⟩

end Pool

/-! ## 4. Runs -/

/-- A run gives and leaves what scans from the start would, up to the first fault. -/
structure Result.IsForetold (s : Settings) (h : Host) (w : World) (r : Result) : Prop where
  outcome : SameEnd s.inputs r.outcome (s.sources.mapM (outcomeAlone s h w.disk))
  files : ∀ paths, r.outcome = .ok paths → ∀ source ∈ s.sources, ∃ text,
    textOf s h w.disk source = .ok text ∧
      r.world.disk.read h.home (s.outputPath source) = .ok text.toUTF8

theorem LeavesFiles.reads_texts {renders : Nat → String → Prop} {paths : List Path} {w' : World}
    (hl : LeavesFiles s h renders paths w') (hdistinct : (s.sources.map s.outputPath).Nodup)
    (hr : ∀ i source text, s.sources[i]? = some source → renders i text →
      textOf s h d source = .ok text) :
    ∀ source ∈ s.sources, ∃ text, textOf s h d source = .ok text ∧
      w'.disk.read h.home (s.outputPath source) = .ok text.toUTF8 := by
  intro source hsource
  obtain ⟨i, hi⟩ := List.mem_iff_getElem?.mp hsource
  have hp : paths[i]? = some (s.outputPath source) := by
    rw [hl.paths_eq]
    exact map_outputPath_eq_some.mpr ⟨source, hi, rfl⟩
  obtain ⟨text, htext, hread⟩ := hl.own (hl.paths_eq ▸ hdistinct) i _ hp
  exact ⟨text, hr i source text hi ((htext text).mpr rfl), hread⟩

section

variable (ha : s.KeepsApart h.home w.disk) (ht : w.disk.IsTree)
  (hlogs : ∀ q, w.Logs q → s.Unread h.home q)
include ha ht hlogs

theorem inOrder_isForetold : (inOrder s h s.sources w).IsForetold s h w := by
  have hw := World.since_start ha ht hlogs
  refine ⟨(inOrder_foretold ha ht (fun _ => id) hw).1, fun paths hok => ?_⟩
  refine (inOrder_leaves_files hok).reads_texts ha.distinct fun i source text hi hr => ?_
  obtain ⟨source', hi', k, hk⟩ := hr
  obtain rfl : source = source' := Option.some_inj.mp (hi.symm.trans hi')
  have hsource : source ∈ s.sources := List.mem_of_getElem? hi
  have htake : ∀ a ∈ s.sources.take i, a ∈ s.sources := fun _ => List.mem_of_mem_take
  obtain ⟨-, hbefore⟩ := inOrder_foretold ha ht htake hw
  obtain ⟨hd, -, hcurrent⟩ := steps_current hbefore.steady hsource k
  rw [hk] at hcurrent
  exact (textOf_apart ha ht (hbefore.drifts.trans hd) hsource).eq_ok_iff.mp hcurrent

theorem atOnce_isForetold {schedule : List Nat}
    (hthrough : Pool.IsThrough (poolAfter s h s.sources w schedule).stages) :
    (atOnce s h s.sources schedule w).IsForetold s h w := by
  have hw := (World.since_start ha ht hlogs).leave Log.mainThread [Log.record .debug "scanner"
    ("Scanning " ++ toString s.sources.length ++ " artifacts with " ++ toString s.jobs ++ " workers")]
  have hstart : (Pool.start s.sources (announcedWorld s s.sources w)).IsOnCourse s h w.disk :=
    Pool.isOnCourse_start (fun _ => id) hw
  have hpool : ∀ schedule, (poolAfter s h s.sources w schedule).IsOnCourse s h w.disk :=
    fun schedule => hstart.run ha ht schedule
  constructor
  · have hforetold : ∀ entry ∈ (poolAfter s h s.sources w schedule).stages,
        entry.2.Foretold s h w.disk entry.1 := by
      intro entry hentry
      obtain ⟨i, hi⟩ := List.mem_iff_getElem?.mp hentry
      exact (hpool schedule).foretold i _ _ hi
    have hsame := Pool.outcome_foretold hthrough hforetold
    rwa [show (poolAfter s h s.sources w schedule).stages.map (·.1) = s.sources from
      Pool.sources_run_start schedule] at hsame
  · intro paths hok
    have hleaves := atOnce_leaves_files_of_finished (Pool.finished_of_outcome hthrough hok) hok
    refine hleaves.reads_texts ha.distinct fun i source text hi hr => ?_
    obtain ⟨before, source', -, hrendered⟩ := hr
    obtain rfl : source = source' := Option.some_inj.mp (hi.symm.trans (Pool.getElem?_sources hrendered))
    have hcurrent := (hpool before).current i source _ hrendered
    exact (textOf_apart ha ht (hpool before).since.drifts (List.mem_of_getElem? hi)).eq_ok_iff.mp
      hcurrent

theorem scanAll_isForetold : (scanAll s h w).IsForetold s h w := by
  unfold scanAll
  split_ifs with hsequential
  · exact inOrder_isForetold ha ht hlogs
  · refine atOnce_isForetold ha ht hlogs (Pool.isThrough_of_finished ?_)
    exact Pool.finished_of_carriesThrough (carriesThrough_scheduleOf hsequential)

end

/-- A fault is that of the first source, in order, whose scan fails from the start. -/
def IsFirstFault (s : Settings) (h : Host) (w : World) (why : Fault) : Prop :=
  ∃ before source after, s.sources = before ++ source :: after ∧
    (∀ a ∈ before, (scan s h a w).1 = .finished (.ok (s.outputPath a))) ∧
    ∃ why', (scan s h source w).1 = .finished (.error why') ∧ Fault.Alike s.inputs why why'

/-- Two runs from a world give the same paths, one for each source, or the same fault, which is
that of the first source that has one. Where they give paths, they leave the same bytes there.
Only the fault of an input with a name that is too long may be put in different words. -/
structure Result.EndsAs (s : Settings) (h : Host) (w : World) (r r' : Result) : Prop where
  outcome : SameEnd s.inputs r.outcome r'.outcome
  outcome_eq : (∀ p ∈ s.inputs, ¬ p.HasLongName) → r.outcome = r'.outcome
  paths : ∀ paths, r.outcome = .ok paths → paths = s.sources.map s.outputPath
  fault : ∀ why, r.outcome = .error why → IsFirstFault s h w why
  files : ∀ paths, r.outcome = .ok paths → ∀ p ∈ paths, ∃ bytes,
    r.world.disk.read h.home p = .ok bytes ∧ r'.world.disk.read h.home p = .ok bytes

theorem Result.IsForetold.isFirstFault {r : Result} (hr : r.IsForetold s h w)
    (ha : s.KeepsApart h.home w.disk) (ht : w.disk.IsTree)
    (hlogs : ∀ q, w.Logs q → s.Unread h.home q) {why : Fault} (hwhy : r.outcome = .error why) :
    IsFirstFault s h w why := by
  obtain ⟨cause, hcause, halike⟩ := hr.outcome.of_error hwhy
  obtain ⟨before, source, after, hsources, hbefore, hfails⟩ := exists_of_mapM_eq_error hcause
  have hscan : ∀ a ∈ s.sources, ∃ outcome, (scan s h a w).1 = .finished outcome ∧
      SameEnd s.inputs outcome (outcomeAlone s h w.disk a) := by
    intro a hmem
    obtain ⟨outcome, w', hscan, hsame, -⟩ :=
      scan_foretold ha ht (World.since_start ha ht hlogs) hmem
    exact ⟨outcome, congrArg Prod.fst hscan, hsame⟩
  refine ⟨before, source, after, hsources, fun a hmem => ?_, ?_⟩
  · obtain ⟨output, houtput⟩ := hbefore a hmem
    obtain ⟨outcome, hfinished, hsame⟩ := hscan a (by rw [hsources]; exact List.mem_append_left _ hmem)
    rw [hfinished, hsame.eq_ok_iff.mpr houtput, eq_outputPath_of_outcomeAlone houtput]
  · obtain ⟨outcome, hfinished, hsame⟩ := hscan source (by rw [hsources]; simp)
    obtain ⟨why', hwhy', halike'⟩ := hsame.symm.of_error hfails
    exact ⟨why', by rw [hfinished, hwhy'], halike.trans halike'⟩

theorem Result.IsForetold.endsAs {r r' : Result} (hr : r.IsForetold s h w)
    (hr' : r'.IsForetold s h w) (ha : s.KeepsApart h.home w.disk) (ht : w.disk.IsTree)
    (hlogs : ∀ q, w.Logs q → s.Unread h.home q) : r.EndsAs s h w r' := by
  have hsame : SameEnd s.inputs r.outcome r'.outcome := hr.outcome.trans hr'.outcome.symm
  have hpaths : ∀ paths, r.outcome = .ok paths → paths = s.sources.map s.outputPath := by
    intro paths hok
    have halone := mapM_eq_ok.mp (hr.outcome.eq_ok_iff.mp hok)
    rw [← List.forall₂_eq_eq_eq, List.forall₂_map_right_iff]
    exact (halone.imp fun _ _ hout => eq_outputPath_of_outcomeAlone hout).flip
  refine ⟨hsame, hsame.eq_of_short, hpaths, fun why => hr.isFirstFault ha ht hlogs,
    fun paths hok p hp => ?_⟩
  rw [hpaths paths hok] at hp
  obtain ⟨source, hsource, rfl⟩ := List.mem_map.mp hp
  obtain ⟨text, htext, hread⟩ := hr.files paths hok source hsource
  obtain ⟨text', htext', hread'⟩ := hr'.files paths (hsame.eq_ok_iff.mp hok) source hsource
  obtain rfl : text = text' := Except.ok.inj (htext.symm.trans htext')
  exact ⟨_, hread, hread'⟩

/-- However many workers a run has, and in whatever order their steps are taken, it ends as a
run one after another: with the same paths and the same bytes there, or with the fault of
the first source that has one. The inputs and the output folder must be apart, and no path
may go back from a folder that scans have to make. -/
theorem runs_end_alike (s : Settings) (h : Host) (w : World) (htree : w.disk.IsTree)
    (hapart : s.KeepsApart h.home w.disk) (hlogs : ∀ q, w.Logs q → s.Unread h.home q)
    (jobs : Nat) :
    (scanAll { s with jobs := jobs } h w).EndsAs s h w (scanAll { s with jobs := 1 } h w) ∧
      ∀ schedule,
        Pool.IsThrough (poolAfter { s with jobs := jobs } h s.sources w schedule).stages →
        (atOnce { s with jobs := jobs } h s.sources schedule w).EndsAs s h w
          (scanAll { s with jobs := 1 } h w) := by
  have hforetold : ∀ jobs, (scanAll { s with jobs := jobs } h w).IsForetold s h w := by
    intro jobs
    have hrun := scanAll_isForetold (hapart.withJobs jobs) htree hlogs
    exact ⟨hrun.outcome, hrun.files⟩
  refine ⟨(hforetold jobs).endsAs (hforetold 1) hapart htree hlogs, fun schedule hthrough => ?_⟩
  have hrun := atOnce_isForetold (hapart.withJobs jobs) htree hlogs hthrough
  have hpool : (atOnce { s with jobs := jobs } h s.sources schedule w).IsForetold s h w :=
    ⟨hrun.outcome, hrun.files⟩
  exact hpool.endsAs (hforetold 1) hapart htree hlogs

/-! ## 5. A small run into a folder of its own

The small target is scanned, and a second path, with an output folder in a folder that has
to be made. -/

/-- A target that cannot be opened ends a scan. -/
theorem World.IsUnlogged.refuseTarget {thread : String} {why : Fault} (hw : w.IsUnlogged d)
    (hopen : (Handle.resolve d h.home source s.classpath).outcome = .error why) :
    ∃ w', step s h thread source .announced w = (.finished (.error why), w') ∧ w'.IsUnlogged d := by
  have hdisk : w.disk = d := by rw [World.disk, hw]
  exact ⟨_, by rw [step, hdisk, advance, hopen], hw.leave _⟩

/-- A round of two workers, in which both scans take their next step. -/
theorem Pool.exists_round (workers : Nat) {pool : Pool} {first second : Path} {a a' b b' : Stage}
    {d₁ d₂ : Disk} (hstages : pool.stages = [(first, a), (second, b)])
    (hw : pool.world.IsUnlogged d)
    (hfirst : ∀ w : World, w.IsUnlogged d → ∃ w',
      Scan.step s h (workerName workers 0) first a w = (a', w') ∧ w'.IsUnlogged d₁)
    (hsecond : ∀ w : World, w.IsUnlogged d₁ → ∃ w',
      Scan.step s h (workerName workers 1) second b w = (b', w') ∧ w'.IsUnlogged d₂) :
    ∃ pool' : Pool, pool'.stages = [(first, a'), (second, b')] ∧ pool'.world.IsUnlogged d₂ ∧
      ∀ rest, pool.run s h workers (0 :: 1 :: rest) = pool'.run s h workers rest := by
  obtain ⟨w₁, hs₁, hw₁⟩ := hfirst pool.world hw
  obtain ⟨w₂, hs₂, hw₂⟩ := hsecond w₁ hw₁
  refine ⟨⟨_, w₂⟩, rfl, hw₂, fun rest => ?_⟩
  simp only [run, step, List.foldl_cons, hstages, List.getElem?_cons_zero, List.getElem?_cons_succ,
    List.set_cons_zero, List.set_cons_succ, hs₁, hs₂]

/-- Nothing is done in steps that no scan takes. -/
theorem Pool.run_of_forall_le {workers : Nat} {pool : Pool} {schedule : List Nat}
    (hnone : ∀ i ∈ schedule, pool.stages.length ≤ i) : pool.run s h workers schedule = pool := by
  induction schedule with
  | nil => rfl
  | cons i rest ih =>
    obtain ⟨hi, hrest⟩ := List.forall_mem_cons.mp hnone
    rw [run, List.foldl_cons, step_of_none (List.getElem?_eq_none hi)]
    exact ih hrest

namespace Sample

def built (jobs : Nat) (second : Path) : Settings :=
  { bothTargets jobs with sources := [target, second], outputFolder := ⟨.root, ["build", "api"]⟩ }

/-- The disk after the scan of the small target. -/
def withBuilt : Disk :=
  ⟨twoFolders.nodes ++ [(["build"], .folder), (["build", "api"], .folder),
    (["build", "api", "a.txt"], .file text.toUTF8)]⟩

/-- The disk after the scan of an empty folder. -/
def withBothBuilt : Disk := ⟨withBuilt.nodes ++ [(["build", "api", "b.txt"], .file .empty)]⟩

def builtResults : List Path :=
  [⟨.root, ["build", "api", "a.txt"]⟩, ⟨.root, ["build", "api", "b.txt"]⟩]

variable (jobs : Nat) (second : Path)

theorem outputPath_built_first :
    (built jobs second).outputPath target = ⟨.root, ["build", "api", "a.txt"]⟩ := by cbv

theorem outputPath_built_second (hname : second.name = "b") :
    (built jobs second).outputPath second = ⟨.root, ["build", "api", "b.txt"]⟩ := by
  rw [Settings.outputPath, hname]
  cbv

theorem makeFolders_built : twoFolders.makeFolders [] .root ["build", "api"] =
    (.ok (), ⟨twoFolders.nodes ++ [(["build"], .folder), (["build", "api"], .folder)]⟩) := by
  have hbuild : twoFolders.makeFolders [] .root ["build"] =
      (.ok (), ⟨twoFolders.nodes ++ [(["build"], .folder)]⟩) := by
    rw [Disk.makeFolders]
    rfl
  have hmissing : twoFolders.makeFolder [] ⟨.root, ["build", "api"]⟩ = .error .missing := rfl
  rw [Disk.makeFolders, hmissing]
  simp only [List.dropLast, hbuild]
  rfl

theorem replaceFile_built_first :
    twoFolders.replaceFile host ((built jobs second).outputPath target) (some text.toUTF8) =
      (.ok (), withBuilt) := by
  have htemporary : Disk.temporaryPlace
      ⟨twoFolders.nodes ++ [(["build"], .folder), (["build", "api"], .folder)]⟩ []
      ⟨.root, ["build", "api", "a.txt"]⟩ = .ok ["build", "api", ".a.txt.00000000.tmp"] := rfl
  simp only [outputPath_built_first, Disk.replaceFile, host, Host.attempt, Host.willing, Path.parent,
    List.dropLast, makeFolders_built, htemporary]
  rfl

theorem replaceFile_built_second (hname : second.name = "b") :
    withBuilt.replaceFile host ((built jobs second).outputPath second) (some "".toUTF8) =
      (.ok (), withBothBuilt) := by
  have hfolders : withBuilt.makeFolders [] .root ["build", "api"] = (.ok (), withBuilt) := by
    rw [Disk.makeFolders]
    rfl
  have htemporary : withBuilt.temporaryPlace [] ⟨.root, ["build", "api", "b.txt"]⟩ =
      .ok ["build", "api", ".b.txt.00000000.tmp"] := rfl
  simp only [outputPath_built_second jobs second hname, Disk.replaceFile, host, Host.attempt,
    Host.willing, Path.parent, List.dropLast, hfolders, htemporary]
  rfl

theorem exists_built_first (hw : w.IsUnlogged twoFolders) (thread : String) :
    ∃ w', CarriesOut (built jobs second) host thread target w w' ∧ w'.IsUnlogged withBuilt := by
  have hnull : ((built jobs second).outputPath target).hasNull = false := by
    rw [outputPath_built_first]
    decide
  have hrender : (render (built jobs second) twoFolders host.home handle).outcome = .ok text :=
    render_first jobs
  exact hw.exists_carriesOut hnull resolve_first hrender (replaceFile_built_first jobs second) thread

theorem scanAll_one_worker : scanAll (built 1 second) host (.ofDisk twoFolders) =
    inOrder (built 1 second) host [target, second] (.ofDisk twoFolders) :=
  if_pos rfl

/-- With one worker the second path is opened when the output folder has been made. -/
theorem outcome_one_worker (hname : second.name = "b")
    (hopen : (Handle.resolve withBuilt host.home second (built 1 second).classpath).outcome =
      .ok ⟨second, .folder [], [], []⟩) :
    (scanAll (built 1 second) host (.ofDisk twoFolders)).outcome = .ok builtResults := by
  have hnull : ((built 1 second).outputPath second).hasNull = false := by
    rw [outputPath_built_second 1 second hname]
    decide
  have hw : World.IsUnlogged (.ofDisk twoFolders) twoFolders := rfl
  obtain ⟨w₁, hc₁, hw₁⟩ := exists_built_first 1 second hw Log.mainThread
  have hrender : (render (built 1 second) withBuilt host.home ⟨second, .folder [], [], []⟩).outcome =
      .ok "" := render_of_no_files rfl rfl
  obtain ⟨w₂, hc₂, -⟩ := hw₁.exists_carriesOut hnull hopen hrender
    (replaceFile_built_second 1 second hname) Log.mainThread
  rw [scanAll_one_worker, inOrder, hc₁.scan]
  dsimp only
  rw [inOrder, hc₂.scan, outputPath_built_first, outputPath_built_second 1 second hname]
  rfl

theorem fault_one_worker {why : Fault}
    (hnull : ((built 1 second).outputPath second).hasNull = false)
    (hopen : (Handle.resolve withBuilt host.home second (built 1 second).classpath).outcome =
      .error why) :
    (scanAll (built 1 second) host (.ofDisk twoFolders)).outcome = .error why := by
  have hw : World.IsUnlogged (.ofDisk twoFolders) twoFolders := rfl
  obtain ⟨w₁, hc₁, hw₁⟩ := exists_built_first 1 second hw Log.mainThread
  obtain ⟨w₂, hs₂, hw₂⟩ : ∃ w₂, step (built 1 second) host Log.mainThread second .waiting w₁ =
      (.announced, w₂) ∧ w₂.IsUnlogged withBuilt := hw₁.announce hnull
  obtain ⟨w₃, hs₃, -⟩ : ∃ w₃, step (built 1 second) host Log.mainThread second .announced w₂ =
      (.finished (.error why), w₃) ∧ w₃.IsUnlogged withBuilt := hw₂.refuseTarget hopen
  have hscan : scan (built 1 second) host second w₁ = (.finished (.error why), w₃) := by
    simp only [scan, stepCount, steps, hs₂, hs₃]
    rfl
  rw [scanAll_one_worker, inOrder, hc₁.scan]
  dsimp only
  rw [inOrder, hscan]
  rfl

/-- With two workers the second path is opened before the output folder is made: each round of
the schedule takes both scans one step on. -/
theorem fault_two_workers {why : Fault}
    (hnull : ((built 2 second).outputPath second).hasNull = false)
    (hopen : (Handle.resolve twoFolders host.home second (built 2 second).classpath).outcome =
      .error why) :
    (scanAll (built 2 second) host (.ofDisk twoFolders)).outcome = .error why := by
  have hfirst : ((built 2 second).outputPath target).hasNull = false := by
    rw [outputPath_built_first]
    decide
  have hopenFirst : (Handle.resolve twoFolders host.home target (built 2 second).classpath).outcome =
      .ok handle := resolve_first
  have hrender : (render (built 2 second) twoFolders host.home handle).outcome = .ok text :=
    render_first 2
  have hschedule : scheduleOf (built 2 second) =
      0 :: 1 :: 0 :: 1 :: 0 :: 1 :: 0 :: 1 :: [2, 3, 2, 3, 2, 3, 2, 3] := by cbv
  have hscan : scanAll (built 2 second) host (.ofDisk twoFolders) = atOnce (built 2 second) host
      [target, second] (scheduleOf (built 2 second)) (.ofDisk twoFolders) := if_neg Bool.false_ne_true
  have hstart : (Pool.start [target, second] (announcedWorld (built 2 second) [target, second]
      (.ofDisk twoFolders))).world.IsUnlogged twoFolders :=
    World.IsUnlogged.leave (w := .ofDisk twoFolders) rfl _
  generalize hworkers : min (built 2 second).jobs [target, second].length = workers
  obtain ⟨pool₁, hstages₁, hw₁, hround₁⟩ := Pool.exists_round workers rfl hstart
    (fun _ hw => hw.announce hfirst) (fun _ hw => hw.announce hnull)
  obtain ⟨pool₂, hstages₂, hw₂, hround₂⟩ := Pool.exists_round workers hstages₁ hw₁
    (fun _ hw => hw.openTarget hopenFirst) (fun _ hw => hw.refuseTarget hopen)
  obtain ⟨pool₃, hstages₃, hw₃, hround₃⟩ := Pool.exists_round workers hstages₂ hw₂
    (fun _ hw => hw.render hrender) (fun w hw => ⟨w, rfl, hw⟩)
  obtain ⟨pool₄, hstages₄, -, hround₄⟩ := Pool.exists_round workers hstages₃ hw₃
    (fun _ hw => hw.write (replaceFile_built_first 2 second)) (fun w hw => ⟨w, rfl, hw⟩)
  have hpast : ∀ i ∈ [2, 3, 2, 3, 2, 3, 2, 3], pool₄.stages.length ≤ i := by
    simp [hstages₄]
  have hrun : poolAfter (built 2 second) host [target, second] (.ofDisk twoFolders)
      (scheduleOf (built 2 second)) = pool₄ := by
    rw [poolAfter, hworkers, hschedule, hround₁, hround₂, hround₃, hround₄,
      Pool.run_of_forall_le hpast]
  rw [hscan, atOnce_eq, hrun, Pool.outcome, hstages₄]
  rfl

/-- A path that goes into the folder with the output folder, and back. -/
def dotted : Path := ⟨.root, ["build", "..", "b"]⟩

/-- A name that is one byte too long. -/
def longName : String := String.ofList (List.replicate 256 'x')

/-- A path beside the output folder that the host does not allow. -/
def long : Path := ⟨.root, ["build", longName, "b"]⟩

theorem hasNull_long : ¬ long.hasNull = true := by
  have hname : ∀ n, (String.ofList (List.replicate n 'x')).toList.contains (Char.ofNat 0) = false := by
    intro n
    rw [String.toList_ofList]
    simp
  have hlong : longName.toList.contains (Char.ofNat 0) = false := hname 256
  rw [Path.hasNull, long, List.any_cons, List.any_cons, hlong]
  decide

theorem follow_long_start : twoFolders.follow [] long.parts = .error .missing := rfl

theorem follow_long : withBuilt.follow [] long.parts = .error .nameTooLong := by
  have hbuild : withBuilt.node? ["build"] = some .folder := rfl
  rw [long, Disk.follow_goOn rfl (.inr (by decide))]
  exact Disk.follow_of_stops (.nameTooLong hbuild (by decide +kernel) (by decide +kernel)) ["b"]

theorem resolve_long {why : Trouble} (hfollow : d.follow [] long.parts = .error why)
    (hwhy : why ≠ .nullInPath) :
    (Handle.resolve d [] long []).outcome = .error (.cannotOpen long (.host why)) := by
  have hfind : d.find [] long = .error why := by
    rw [Disk.find, Disk.locate_eq_follow hasNull_long]
    exact congrArg (· >>= _) hfollow
  have hopen : Handle.openEntry d [] long = .error (.cannotOpen long (.host why)) := by
    rw [Handle.openEntry, Source.openAt_of_find_error hfind]
    cases why with
    | nullInPath => exact absurd rfl hwhy
    | _ => rfl
  rw [Handle.resolve]
  simp only [Report.outcome_bind, Report.outcome_ofExcept, List.mapM_nil, hopen]
  rfl

theorem liesApart_built (hname : Settings.outputName target ≠ Settings.outputName second)
    (hinside : ¬ ["build", "api"] <+: second.destination [])
    (haround : ¬ second.destination [] <+: ["build", "api"]) :
    (built jobs second).LiesApart [] where
  distinct := by
    rw [show (built jobs second).sources = [target, second] from rfl]
    simp only [List.map_cons, List.map_nil, List.nodup_cons, List.mem_singleton, List.not_mem_nil,
      not_false_eq_true, List.nodup_nil, and_true]
    exact fun heq => hname (List.singleton_inj.mp (List.append_cancel_left (congrArg Path.parts heq)))
  notInside := by
    intro p hp
    rcases List.mem_pair.mp hp with rfl | rfl
    · exact (by decide : ¬ ["build", "api"] <+: ["a"])
    · exact hinside
  notAround := by
    intro p hp
    rcases List.mem_pair.mp hp with rfl | rfl
    · exact (by decide : ¬ ["a"] <+: ["build", "api"])
    · exact haround

end Sample

/-- The small target and an empty folder, with two workers that take their steps in turns. -/
theorem runs_end_alike_of_sample :
    (scanAll (Sample.built 1 Sample.emptyTarget) Sample.host (.ofDisk Sample.twoFolders)).outcome =
        .ok Sample.builtResults ∧
      (atOnce (Sample.built 2 Sample.emptyTarget) Sample.host [Sample.target, Sample.emptyTarget]
        [1, 0, 0, 1, 1, 0, 1, 0] (.ofDisk Sample.twoFolders)).outcome = .ok Sample.builtResults := by
  have hone := Sample.outcome_one_worker Sample.emptyTarget rfl (by cbv)
  have hapart : (Sample.built 1 Sample.emptyTarget).KeepsApart [] Sample.twoFolders :=
    (Sample.liesApart_built 1 Sample.emptyTarget (by decide) (by decide) (by decide)).keepsApart
      (by decide)
  have hthrough : Pool.CarriesThrough [1, 0, 0, 1, 1, 0, 1, 0] 2 := by
    intro i hi
    interval_cases i <;> decide
  have hruns := (runs_end_alike (Sample.built 1 Sample.emptyTarget) Sample.host
    (.ofDisk Sample.twoFolders) Sample.isTree_twoFolders hapart
    (fun q hq => absurd hq (World.not_logs_ofDisk _ q)) 2).2 [1, 0, 0, 1, 1, 0, 1, 0]
    (Pool.isThrough_of_finished (Pool.finished_of_carriesThrough hthrough))
  exact ⟨hone, hruns.outcome.eq_ok_iff.mpr hone⟩

/-- It is not enough that the inputs lie apart from the output folder. With one worker the second
path is opened when the first scan has made the folder that it goes through, and with two
workers before that. So one run gives paths and the other one a fault; or they have faults
with different words of the host. -/
theorem interleaving_decides_outcome :
    Sample.twoFolders.IsTree ∧
    ((Sample.built 1 Sample.dotted).LiesApart [] ∧
      (scanAll (Sample.built 1 Sample.dotted) Sample.host (.ofDisk Sample.twoFolders)).outcome =
        .ok Sample.builtResults ∧
      (scanAll (Sample.built 2 Sample.dotted) Sample.host (.ofDisk Sample.twoFolders)).outcome =
        .error (.cannotOpen Sample.dotted (.host .missing))) ∧
    ((Sample.built 1 Sample.long).LiesApart [] ∧
      (scanAll (Sample.built 1 Sample.long) Sample.host (.ofDisk Sample.twoFolders)).outcome =
        .error (.cannotOpen Sample.long (.host .nameTooLong)) ∧
      (scanAll (Sample.built 2 Sample.long) Sample.host (.ofDisk Sample.twoFolders)).outcome =
        .error (.cannotOpen Sample.long (.host .missing))) := by
  refine ⟨Sample.isTree_twoFolders, ⟨?_, ?_, ?_⟩, ?_, ?_, ?_⟩
  · exact Sample.liesApart_built 1 Sample.dotted (by decide) (by decide) (by decide)
  · exact Sample.outcome_one_worker Sample.dotted rfl (by cbv)
  · exact Sample.fault_two_workers Sample.dotted (by decide) rfl
  · exact Sample.liesApart_built 1 Sample.long (by decide) (by decide +kernel) (by decide +kernel)
  · exact Sample.fault_one_worker Sample.long rfl
      (Sample.resolve_long Sample.follow_long (by decide))
  · exact Sample.fault_two_workers Sample.long rfl
      (Sample.resolve_long Sample.follow_long_start (by decide))

end ApiSurface.Scan
