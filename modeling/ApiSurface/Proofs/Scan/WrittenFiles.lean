/-
ApiSurface.Proofs.Scan.WrittenFiles — which files a run leaves.

After a run every output path holds the text that the scan of some source with this
output path rendered, and where sources have different output paths it holds the text of
its own source. Where sources share an output path, a text that was written before is
lost: in a run one after another the last of these sources has its text there.

This is shown for runs one after another, by induction on the sources, and for runs at the
same time under every schedule that carries all scans through, by induction on the steps
that were taken so far.
-/
import ApiSurface.Proofs.Scan.FolderTargets
import ApiSurface.Proofs.Scan.PublicInterface
import ApiSurface.Proofs.Scan.Steps
import ApiSurface.Scan.Pool

namespace ApiSurface

namespace Scan

variable {s : Settings} {h : Host} {source : Path} {stage : Stage} {w : World}

/-! ## 1. One after another -/

/-- The last of some steps. -/
theorem steps_succ (n : Nat) :
    steps s h source (n + 1) stage w =
      step s h Log.mainThread source (steps s h source n stage w).1 (steps s h source n stage w).2 := by
  induction n generalizing stage w with
  | zero => rfl
  | succ n ih => exact ih

/-- The scan of a source that starts in a world renders a text. -/
def Renders (s : Settings) (h : Host) (source : Path) (w : World) (text : String) : Prop :=
  ∃ k, (steps s h source k .waiting w).1 = .rendered text

theorem isPast_steps {k : Nat} {text : String} (hk : (steps s h source k .waiting w).1 = .rendered text)
    (more : Nat) : (steps s h source (k + more) .waiting w).1.IsPast text := by
  induction more with
  | zero => exact .inl hk
  | succ more ih =>
    rw [← Nat.add_assoc, steps_succ]
    exact ih.step

theorem Renders.unique {text other : String} (ht : Renders s h source w text)
    (ho : Renders s h source w other) : other = text := by
  obtain ⟨k, hk⟩ := ht
  obtain ⟨n, hn⟩ := ho
  rcases Nat.le_total k n with hle | hle
  · obtain ⟨more, rfl⟩ := Nat.exists_eq_add_of_le hle
    have hpast := isPast_steps hk more
    rw [hn] at hpast
    exact hpast.eq
  · obtain ⟨more, rfl⟩ := Nat.exists_eq_add_of_le hle
    have hpast := isPast_steps hn more
    rw [hk] at hpast
    exact hpast.eq.symm

theorem Settled.steps {renders : String → Prop} {a : Path}
    (hs : Settled h.home renders (s.outputPath a) w)
    (hr : ∀ text, Renders s h source w text → s.outputPath source = s.outputPath a → renders text)
    (n : Nat) : Settled h.home renders (s.outputPath a) (steps s h source n .waiting w).2 := by
  induction n with
  | zero => exact hs
  | succ n ih =>
    rw [steps_succ]
    exact ih.step fun text ht => hr text ⟨n, ht⟩

theorem steps_finished {n : Nat} {output : Path}
    (hf : (steps s h source n .waiting w).1 = .finished (.ok output)) :
    output = s.outputPath source ∧
      Settled h.home (Renders s h source w) (s.outputPath source)
        (steps s h source n .waiting w).2 := by
  induction n with
  | zero => cases hf
  | succ n ih =>
    rw [steps_succ] at hf ⊢
    by_cases hn : (steps s h source n .waiting w).1 = .finished (.ok output)
    · obtain ⟨houtput, hs⟩ := ih hn
      refine ⟨houtput, hs.step fun text ht => ?_⟩
      rw [hn] at ht
      cases ht
    · obtain ⟨text, ht, houtput, hk⟩ := step_finishes hf hn
      exact ⟨houtput, text, ⟨n, ht⟩, hk⟩

theorem rank_steps (n : Nat) : min stepCount n ≤ (steps s h source n .waiting w).1.rank := by
  induction n with
  | zero => exact Nat.zero_le _
  | succ n ih =>
    rw [steps_succ]
    have := rank_step s h Log.mainThread source (steps s h source n .waiting w).1
      (steps s h source n .waiting w).2
    omega

/-- A run that succeeds has scanned its first source, and goes on in the world behind. -/
theorem inOrder_cons_eq_ok {a : Path} {rest paths : List Path}
    (hok : (inOrder s h (a :: rest) w).outcome = .ok paths) :
    ∃ w₁ others, scan s h a w = (.finished (.ok (s.outputPath a)), w₁) ∧
      (inOrder s h rest w₁).outcome = .ok others ∧ paths = s.outputPath a :: others ∧
      ∀ sources, (inOrder s h (a :: sources) w).world = (inOrder s h sources w₁).world := by
  obtain ⟨stage, w₁, hscan⟩ : ∃ stage w₁, scan s h a w = (stage, w₁) := ⟨_, _, rfl⟩
  have hrank : stepCount ≤ (scan s h a w).1.rank := rank_steps stepCount
  rw [hscan] at hrank
  obtain ⟨outcome, rfl⟩ := exists_outcome_of_rank hrank
  cases outcome with
  | error why =>
    rw [inOrder, hscan] at hok
    cases hok
  | ok output =>
    have houtput : output = s.outputPath a :=
      (steps_finished (n := stepCount) (congrArg Prod.fst hscan)).1
    have hrun : ∀ sources, inOrder s h (a :: sources) w =
        ⟨(inOrder s h sources w₁).outcome.map (s.outputPath a :: ·), (inOrder s h sources w₁).world⟩ :=
      fun sources => by rw [inOrder, hscan]
    rw [hrun rest] at hok
    obtain ⟨others, ho, rfl⟩ := map_eq_ok.mp hok
    exact ⟨w₁, others, by rw [hscan, houtput], ho, rfl, fun sources => by rw [hrun]⟩

/-- In a run one after another the source with an index renders a text. -/
def RendersInOrder (s : Settings) (h : Host) (sources : List Path) (w : World) (i : Nat)
    (text : String) : Prop :=
  ∃ source, sources[i]? = some source ∧
    Renders s h source (inOrder s h (sources.take i) w).world text

/-- The last source with a given output path renders a text. -/
def RendersLast (s : Settings) (sources : List Path) (renders : Nat → String → Prop) (p : Path)
    (text : String) : Prop :=
  ∃ i source, sources[i]? = some source ∧ s.outputPath source = p ∧ renders i text ∧
    ∀ k other, i < k → sources[k]? = some other → s.outputPath other ≠ p

/-- The texts of the sources behind the first one are texts of the whole run. -/
theorem RendersLast.cons {a p : Path} {rest : List Path} {w₁ : World} {text : String}
    (hr : RendersLast s rest (RendersInOrder s h rest w₁) p text)
    (hrun : ∀ sources, (inOrder s h (a :: sources) w).world = (inOrder s h sources w₁).world) :
    RendersLast s (a :: rest) (RendersInOrder s h (a :: rest) w) p text := by
  obtain ⟨i, source, hi, hp, ⟨other, hi', hrenders⟩, hlast⟩ := hr
  refine ⟨i + 1, source, hi, hp, ⟨other, hi', ?_⟩, fun k other hk hother => ?_⟩
  · rw [List.take_succ_cons, hrun]
    exact hrenders
  · obtain ⟨k, rfl⟩ := Nat.exists_eq_add_of_lt (Nat.zero_lt_of_lt hk)
    rw [Nat.zero_add] at hk hother
    exact hlast k other (Nat.lt_of_succ_lt_succ hk) hother

/-- A run leaves an output file as it is that none of its sources has. -/
theorem Settled.inOrder {renders : String → Prop} {a : Path} {sources paths : List Path}
    (hok : (inOrder s h sources w).outcome = .ok paths)
    (hs : Settled h.home renders (s.outputPath a) w)
    (hother : ∀ source ∈ sources, s.outputPath source ≠ s.outputPath a) :
    Settled h.home renders (s.outputPath a) (Scan.inOrder s h sources w).world := by
  induction sources generalizing w paths with
  | nil => exact hs
  | cons source rest ih =>
    obtain ⟨w₁, others, hscan, ho, -, hrun⟩ := inOrder_cons_eq_ok hok
    rw [hrun]
    refine ih ho ?_ fun other hmem => hother other (List.mem_cons_of_mem _ hmem)
    have hsteps : Settled h.home renders (s.outputPath a) (scan s h source w).2 :=
      hs.steps (fun _ _ hp => absurd hp (hother source List.mem_cons_self)) stepCount
    rwa [hscan] at hsteps

/-- A run that succeeds gives the output paths of its sources, and at each one lies the text
of the last source that has it. -/
theorem inOrder_files {sources paths : List Path}
    (hok : (inOrder s h sources w).outcome = .ok paths) :
    paths = sources.map s.outputPath ∧ ∀ source ∈ sources,
      Settled h.home (RendersLast s sources (RendersInOrder s h sources w) (s.outputPath source))
        (s.outputPath source) (inOrder s h sources w).world := by
  induction sources generalizing w paths with
  | nil =>
    cases hok
    exact ⟨rfl, nofun⟩
  | cons a rest ih =>
    obtain ⟨w₁, others, hscan, ho, rfl, hrun⟩ := inOrder_cons_eq_ok hok
    obtain ⟨rfl, hfiles⟩ := ih ho
    refine ⟨rfl, fun source hsource => ?_⟩
    rw [hrun rest]
    by_cases hagain : ∃ other ∈ rest, s.outputPath other = s.outputPath source
    · obtain ⟨other, hother, hp⟩ := hagain
      rw [← hp]
      exact (hfiles other hother).mono fun text ht => ht.cons hrun
    · push Not at hagain
      -- No source behind the first one has this path, so this is the first one.
      obtain rfl : source = a := (List.mem_cons.mp hsource).resolve_right fun hrest =>
        hagain source hrest rfl
      have hown : Settled h.home (Renders s h source w) (s.outputPath source) (scan s h source w).2 :=
        (steps_finished (n := stepCount) (congrArg Prod.fst hscan)).2
      rw [hscan] at hown
      refine (hown.mono fun text ht => ?_).inOrder ho hagain
      refine ⟨0, source, rfl, rfl, ⟨source, rfl, ht⟩, fun k other hk hother => ?_⟩
      obtain ⟨k, rfl⟩ := Nat.exists_eq_add_of_lt hk
      rw [Nat.zero_add] at hother
      exact hagain other (List.mem_of_getElem? hother)

/-! ## 2. At the same time -/

/-- A source with a given output path renders a text. -/
def RendersFor (s : Settings) (sources : List Path) (renders : Nat → String → Prop) (p : Path)
    (text : String) : Prop :=
  ∃ i source, sources[i]? = some source ∧ s.outputPath source = p ∧ renders i text

namespace Pool

variable {workers : Nat} {pool : Pool}

theorem run_append (before more : List Nat) :
    pool.run s h workers (before ++ more) = (pool.run s h workers before).run s h workers more :=
  List.foldl_append

theorem run_concat (schedule : List Nat) (index : Nat) :
    pool.run s h workers (schedule ++ [index]) =
      (pool.run s h workers schedule).step s h workers index := by
  rw [run_append]
  rfl

theorem step_of_none {index : Nat} (hi : pool.stages[index]? = none) :
    pool.step s h workers index = pool := by
  rw [step, hi]

theorem step_of_some {index : Nat} (hi : pool.stages[index]? = some (source, stage)) :
    pool.step s h workers index =
      ⟨pool.stages.set index
        (source, (Scan.step s h (workerName workers index) source stage pool.world).1),
        (Scan.step s h (workerName workers index) source stage pool.world).2⟩ := by
  rw [step, hi]

theorem set_of_getElem? {α : Type} {l : List α} {i : Nat} {a : α} (hi : l[i]? = some a) :
    l.set i a = l := by
  obtain ⟨hlt, rfl⟩ := List.getElem?_eq_some_iff.mp hi
  exact List.set_getElem_self hlt

/-- No step changes which sources are scanned. -/
theorem sources_run (schedule : List Nat) :
    (pool.run s h workers schedule).stages.map (·.1) = pool.stages.map (·.1) := by
  induction schedule using List.reverseRecOn with
  | nil => rfl
  | append_singleton schedule index ih =>
    rw [run_concat]
    cases hi : (pool.run s h workers schedule).stages[index]? with
    | none => rw [step_of_none hi, ih]
    | some entry =>
      have hsource : ((pool.run s h workers schedule).stages.map (·.1))[index]? = some entry.1 := by
        rw [List.getElem?_map, hi]
        rfl
      rw [step_of_some hi, List.map_set, set_of_getElem? hsource, ih]

/-- What the stage of a scan was before a step. -/
theorem getElem?_step {index i : Nat} {stage' : Stage}
    (hi : (pool.step s h workers index).stages[i]? = some (source, stage')) :
    ∃ stage, pool.stages[i]? = some (source, stage) ∧
      ((index ≠ i ∧ stage' = stage) ∨ (index = i ∧
        stage' = (Scan.step s h (workerName workers index) source stage pool.world).1)) := by
  cases hindex : pool.stages[index]? with
  | none =>
    rw [step_of_none hindex] at hi
    refine ⟨stage', hi, .inl ⟨?_, rfl⟩⟩
    rintro rfl
    rw [hindex] at hi
    cases hi
  | some entry =>
    rw [step_of_some hindex] at hi
    by_cases hii : index = i
    · subst hii
      rw [List.getElem?_set_self (List.getElem?_eq_some_iff.mp hindex).1, Option.some_inj,
        Prod.mk.injEq] at hi
      obtain ⟨rfl, rfl⟩ := hi
      exact ⟨entry.2, hindex, .inr ⟨rfl, rfl⟩⟩
    · rw [List.getElem?_set_ne hii] at hi
      exact ⟨stage', hi, .inl ⟨hii, rfl⟩⟩

theorem sources_run_start {sources : List Path} (schedule : List Nat) :
    ((start sources w).run s h workers schedule).stages.map (·.1) = sources := by
  rw [sources_run, start, List.map_map]
  exact List.map_id _

theorem getElem?_sources {sources : List Path} {schedule : List Nat} {i : Nat}
    (hi : ((start sources w).run s h workers schedule).stages[i]? = some (source, stage)) :
    sources[i]? = some source := by
  rw [← @sources_run_start s h w workers sources schedule, List.getElem?_map, hi]
  rfl

/-- The output file of every scan that succeeded holds the text of a source with this
output path. -/
def HasFiles (s : Settings) (h : Host) (sources : List Path) (renders : Nat → String → Prop)
    (pool : Pool) : Prop :=
  ∀ (i : Nat) (source output : Path), pool.stages[i]? = some (source, .finished (.ok output)) →
    output = s.outputPath source ∧
      Settled h.home (RendersFor s sources renders (s.outputPath source)) (s.outputPath source)
        pool.world

theorem HasFiles.mono {sources : List Path} {renders renders' : Nat → String → Prop}
    (hf : pool.HasFiles s h sources renders) (hr : ∀ i text, renders i text → renders' i text) :
    pool.HasFiles s h sources renders' := by
  intro i source output hi
  obtain ⟨houtput, hs⟩ := hf _ _ _ hi
  refine ⟨houtput, hs.mono ?_⟩
  rintro text ⟨j, other, hj, hp, ht⟩
  exact ⟨j, other, hj, hp, hr j text ht⟩

/-- A step keeps this up, whichever scan takes it. -/
theorem HasFiles.step {sources : List Path} {renders : Nat → String → Prop} {index : Nat}
    (hf : pool.HasFiles s h sources renders)
    (hr : ∀ {other text}, pool.stages[index]? = some (other, .rendered text) →
      sources[index]? = some other ∧ renders index text) :
    (pool.step s h workers index).HasFiles s h sources renders := by
  cases hindex : pool.stages[index]? with
  | none =>
    rw [step_of_none hindex]
    exact hf
  | some entry =>
    obtain ⟨other, stage⟩ := entry
    rw [step_of_some hindex]
    have hrendered : ∀ p text, stage = .rendered text → s.outputPath other = p →
        RendersFor s sources renders p text := by
      rintro p text rfl hp
      exact ⟨index, other, (hr hindex).1, hp, (hr hindex).2⟩
    intro i source output hi
    -- The scan that takes the step may be this one, or another one with the same output path.
    by_cases hii : index = i
    · subst hii
      rw [List.getElem?_set_self (List.getElem?_eq_some_iff.mp hindex).1, Option.some_inj,
        Prod.mk.injEq] at hi
      obtain ⟨rfl, hfinished⟩ := hi
      by_cases hstage : stage = .finished (.ok output)
      · subst hstage
        obtain ⟨houtput, hs⟩ := hf _ _ _ hindex
        exact ⟨houtput, hs.step (hrendered _)⟩
      · obtain ⟨text, htext, houtput, hk⟩ := step_finishes hfinished hstage
        exact ⟨houtput, text, hrendered _ text htext rfl, hk⟩
    · rw [List.getElem?_set_ne hii] at hi
      obtain ⟨houtput, hs⟩ := hf _ _ _ hi
      exact ⟨houtput, hs.step (hrendered _)⟩

/-- During a schedule the scan with an index renders a text. -/
def RendersDuring (s : Settings) (h : Host) (workers : Nat) (pool : Pool) (schedule : List Nat)
    (i : Nat) (text : String) : Prop :=
  ∃ before source, before <+: schedule ∧
    (pool.run s h workers before).stages[i]? = some (source, .rendered text)

theorem RendersDuring.concat {schedule : List Nat} {i : Nat} {text : String} (index : Nat)
    (hr : RendersDuring s h workers pool schedule i text) :
    RendersDuring s h workers pool (schedule ++ [index]) i text := by
  obtain ⟨before, source, hprefix, hi⟩ := hr
  exact ⟨before, source, hprefix.trans (List.prefix_append _ _), hi⟩

theorem isPast_run {before more : List Nat} {i : Nat} {a b : Path} {text : String}
    (hbefore : (pool.run s h workers before).stages[i]? = some (a, .rendered text))
    (hmore : (pool.run s h workers (before ++ more)).stages[i]? = some (b, stage)) :
    stage.IsPast text := by
  induction more using List.reverseRecOn generalizing stage with
  | nil =>
    rw [List.append_nil, hbefore] at hmore
    cases hmore
    exact .inl rfl
  | append_singleton more index ih =>
    rw [← List.append_assoc, run_concat] at hmore
    obtain ⟨previous, hprevious, ⟨-, rfl⟩ | ⟨-, rfl⟩⟩ := getElem?_step hmore
    · exact ih hprevious
    · exact (ih hprevious).step

theorem RendersDuring.unique {schedule : List Nat} {i : Nat} {text other : String}
    (ht : RendersDuring s h workers pool schedule i text)
    (ho : RendersDuring s h workers pool schedule i other) : other = text := by
  obtain ⟨before, a, hprefix, hbefore⟩ := ht
  obtain ⟨before', a', hprefix', hbefore'⟩ := ho
  rcases List.prefix_or_prefix_of_prefix hprefix hprefix' with ⟨more, rfl⟩ | ⟨more, rfl⟩
  · exact (isPast_run hbefore hbefore').eq
  · exact (isPast_run hbefore' hbefore).eq.symm

/-- Every schedule leaves the files of the scans that succeeded. -/
theorem run_hasFiles (sources : List Path) (w : World) (schedule : List Nat) :
    ((start sources w).run s h workers schedule).HasFiles s h sources
      (RendersDuring s h workers (start sources w) schedule) := by
  induction schedule using List.reverseRecOn with
  | nil =>
    intro i source output hi
    rw [run, List.foldl_nil, start, List.getElem?_map] at hi
    obtain ⟨_, -, hwaiting⟩ := Option.map_eq_some_iff.mp hi
    cases hwaiting
  | append_singleton schedule index ih =>
    rw [run_concat]
    have hmore := HasFiles.mono ih fun i text hr => RendersDuring.concat index hr
    exact hmore.step fun hindex =>
      ⟨getElem?_sources hindex, schedule, _, List.prefix_append _ _, hindex⟩

/-! ## 3. Schedules that carry all scans through -/

/-- A schedule has enough steps for each of some scans. -/
def CarriesThrough (schedule : List Nat) (count : Nat) : Prop :=
  ∀ i < count, stepCount ≤ schedule.count i

theorem rank_run {schedule : List Nat} {i : Nat}
    (hi : (pool.run s h workers schedule).stages[i]? = some (source, stage)) :
    min stepCount (schedule.count i) ≤ stage.rank := by
  induction schedule using List.reverseRecOn generalizing source stage with
  | nil => exact Nat.zero_le _
  | append_singleton schedule index ih =>
    rw [run_concat] at hi
    obtain ⟨before, hbefore, hstep⟩ := getElem?_step hi
    have hcount := ih hbefore
    rw [List.count_append, List.count_singleton]
    rcases hstep with ⟨hne, rfl⟩ | ⟨rfl, rfl⟩
    · rw [if_neg (by simpa using hne)]
      exact hcount
    · have hrank := rank_step s h (workerName workers index) source before
        (pool.run s h workers schedule).world
      rw [if_pos (beq_self_eq_true index)]
      omega

/-- In a pool that is through with an outcome, the scans have succeeded with its paths. -/
theorem stages_of_outcome {stages : List (Path × Stage)} {paths : List Path}
    (hdone : ∀ entry ∈ stages, ∃ outcome, entry.2 = .finished outcome)
    (hok : stages.filterMap (·.2.outcome?) = paths.map .ok) :
    stages.map (·.2) = paths.map fun path => .finished (.ok path) := by
  induction stages generalizing paths with
  | nil =>
    obtain rfl := List.map_eq_nil_iff.mp hok.symm
    rfl
  | cons entry stages ih =>
    obtain ⟨outcome, houtcome⟩ := hdone entry (List.mem_cons_self)
    have hhead : entry.2.outcome? = some outcome := by rw [houtcome]; rfl
    rw [List.filterMap_cons, hhead] at hok
    obtain ⟨path, others, rfl, rfl, hothers⟩ := List.map_eq_cons_iff.mp hok.symm
    rw [List.map_cons, List.map_cons, houtcome,
      ih (fun e he => hdone e (List.mem_cons_of_mem _ he)) hothers.symm]

/-- In a pool that is through with an outcome, every output path has a file. -/
theorem HasFiles.outcome {renders : Nat → String → Prop} {paths : List Path}
    (hf : pool.HasFiles s h (pool.stages.map (·.1)) renders)
    (hdone : ∀ entry ∈ pool.stages, ∃ outcome, entry.2 = .finished outcome)
    (hok : pool.outcome = .ok paths) :
    paths = (pool.stages.map (·.1)).map s.outputPath ∧ ∀ source ∈ pool.stages.map (·.1),
      Settled h.home (RendersFor s (pool.stages.map (·.1)) renders (s.outputPath source))
        (s.outputPath source) pool.world := by
  have hstages := stages_of_outcome hdone (mapM_id_eq_ok.mp hok)
  have hfiles : ∀ entry ∈ pool.stages, entry.2 = .finished (.ok (s.outputPath entry.1)) ∧
      Settled h.home (RendersFor s (pool.stages.map (·.1)) renders (s.outputPath entry.1))
        (s.outputPath entry.1) pool.world := by
    intro entry hentry
    have hstage : entry.2 ∈ paths.map fun path => Stage.finished (.ok path) := by
      rw [← hstages]
      exact List.mem_map_of_mem hentry
    obtain ⟨path, -, hpath⟩ := List.mem_map.mp hstage
    obtain ⟨i, hi⟩ := List.mem_iff_getElem?.mp hentry
    obtain ⟨rfl, hs⟩ := hf i entry.1 path (by rw [hi, hpath])
    exact ⟨hpath.symm, hs⟩
  constructor
  · have hinj : Function.Injective fun path => Stage.finished (.ok path) := fun _ _ he => by
      cases he
      rfl
    refine List.map_injective_iff.mpr hinj ?_
    rw [← hstages, List.map_map, List.map_map]
    exact List.map_congr_left fun entry hentry => (hfiles entry hentry).1
  · intro source hsource
    obtain ⟨entry, hentry, rfl⟩ := List.mem_map.mp hsource
    exact (hfiles entry hentry).2

/-- A schedule that carries all scans through leaves all of them finished. -/
theorem finished_of_carriesThrough {sources : List Path} {schedule : List Nat}
    (hcarries : CarriesThrough schedule sources.length) :
    ∀ entry ∈ ((start sources w).run s h workers schedule).stages,
      ∃ outcome, entry.2 = .finished outcome := by
  rintro ⟨source, stage⟩ hentry
  obtain ⟨i, hi⟩ := List.mem_iff_getElem?.mp hentry
  have hlt : i < sources.length := (List.getElem?_eq_some_iff.mp (getElem?_sources hi)).1
  have hrank := rank_run hi
  rw [Nat.min_eq_left (hcarries i hlt)] at hrank
  exact exists_outcome_of_rank hrank

/-- The schedule in which the workers keep step carries all scans through. -/
theorem carriesThrough_evenSchedule {workers : Nat} (hworkers : 0 < workers) (count : Nat) :
    CarriesThrough (evenSchedule workers count) count := by
  intro i hi
  -- The scan takes all its steps in the round that it belongs to.
  have hround : i / workers ∈ List.range (count / workers + 1) := by
    rw [List.mem_range, Nat.lt_succ_iff]
    exact Nat.div_le_div_right (Nat.le_of_lt hi)
  have hmem : i ∈ (List.range workers).map (i / workers * workers + ·) :=
    List.mem_map.mpr ⟨i % workers, List.mem_range.mpr (Nat.mod_lt i hworkers),
      Nat.div_add_mod' i workers⟩
  have hsteps : stepCount ≤ List.count i
      (List.replicate stepCount ((List.range workers).map (i / workers * workers + ·))).flatten := by
    rw [List.count_flatten, List.map_replicate, List.sum_replicate_nat]
    exact Nat.le_mul_of_pos_right _ (List.count_pos_iff.mpr hmem)
  rw [evenSchedule, List.flatMap_def]
  refine hsteps.trans (List.Sublist.count_le i ?_)
  exact List.sublist_flatten_of_mem (List.mem_map.mpr ⟨i / workers, hround, rfl⟩)

end Pool

/-! ## 4. Runs -/

theorem Settled.read {home : Place} {renders : String → Prop} {p : Path}
    (hs : Settled home renders p w) :
    ∃ text, renders text ∧ w.disk.read home p = .ok text.toUTF8 := by
  obtain ⟨text, ht, hk⟩ := hs
  exact ⟨text, ht, hk.file.read⟩

/-- The world in which scans at the same time start. -/
def announcedWorld (s : Settings) (sources : List Path) (w : World) : World :=
  w.leave Log.mainThread [Log.record .debug "scanner"
    ("Scanning " ++ toString sources.length ++ " artifacts with " ++ toString s.jobs ++ " workers")]

/-- The scans at the same time, after some of their steps. -/
def poolAfter (s : Settings) (h : Host) (sources : List Path) (w : World) (schedule : List Nat) :
    Pool :=
  (Pool.start sources (announcedWorld s sources w)).run s h (min s.jobs sources.length) schedule

theorem atOnce_eq (sources : List Path) (schedule : List Nat) :
    atOnce s h sources schedule w =
      ⟨(poolAfter s h sources w schedule).outcome, (poolAfter s h sources w schedule).world⟩ := rfl

/-- In a run at the same time the source with an index renders a text. -/
def RendersAtOnce (s : Settings) (h : Host) (sources : List Path) (schedule : List Nat) (w : World) :
    Nat → String → Prop :=
  Pool.RendersDuring s h (min s.jobs sources.length)
    (Pool.start sources (announcedWorld s sources w)) schedule

theorem RendersInOrder.unique {sources : List Path} {i : Nat} {text other : String}
    (ht : RendersInOrder s h sources w i text) (ho : RendersInOrder s h sources w i other) :
    other = text := by
  obtain ⟨source, hi, ht⟩ := ht
  obtain ⟨source', hi', ho⟩ := ho
  obtain rfl : source = source' := Option.some_inj.mp (hi.symm.trans hi')
  exact ht.unique ho

theorem map_outputPath_eq_some {sources : List Path} {i : Nat} {p : Path} :
    (sources.map s.outputPath)[i]? = some p ↔
      ∃ source, sources[i]? = some source ∧ s.outputPath source = p := by
  rw [List.getElem?_map, Option.map_eq_some_iff]

/-- What a run of the sources leaves, where `renders` says which text is rendered for
which of them: a path for each source, and at each path the text of a source with this
path. -/
structure LeavesFiles (s : Settings) (h : Host) (renders : Nat → String → Prop) (paths : List Path)
    (w : World) : Prop where
  paths_eq : paths = s.sources.map s.outputPath
  exists_source : ∀ (i : Nat) (p : Path), paths[i]? = some p → ∃ j text, paths[j]? = some p ∧
    renders j text ∧ w.disk.read h.home p = .ok text.toUTF8
  own : paths.Nodup → ∀ (i : Nat) (p : Path), paths[i]? = some p → ∃ text,
    (∀ other, renders i other ↔ other = text) ∧ w.disk.read h.home p = .ok text.toUTF8

theorem leavesFiles_of_settled {renders : Nat → String → Prop} {paths : List Path}
    (hunique : ∀ i text other, renders i text → renders i other → other = text)
    (hpaths : paths = s.sources.map s.outputPath)
    (hfiles : ∀ source ∈ s.sources, Settled h.home
      (RendersFor s s.sources renders (s.outputPath source)) (s.outputPath source) w) :
    LeavesFiles s h renders paths w := by
  subst hpaths
  have hsome : ∀ (i : Nat) (p : Path), (s.sources.map s.outputPath)[i]? = some p → ∃ j text,
      (s.sources.map s.outputPath)[j]? = some p ∧ renders j text ∧
      w.disk.read h.home p = .ok text.toUTF8 := by
    intro i p hi
    obtain ⟨source, hsource, rfl⟩ := map_outputPath_eq_some.mp hi
    obtain ⟨text, ⟨j, other, hj, hp, ht⟩, hread⟩ := (hfiles source (List.mem_of_getElem? hsource)).read
    exact ⟨j, text, map_outputPath_eq_some.mpr ⟨other, hj, hp⟩, ht, hread⟩
  refine ⟨rfl, hsome, fun hnodup i p hi => ?_⟩
  obtain ⟨j, text, hj, ht, hread⟩ := hsome i p hi
  obtain rfl : i = j :=
    (List.getElem?_inj (List.getElem?_eq_some_iff.mp hi).1 hnodup).mp (hi.trans hj.symm)
  exact ⟨text, fun other => ⟨hunique i text other ht, fun ho => ho ▸ ht⟩, hread⟩

theorem inOrder_leaves_files {paths : List Path} (hok : (inOrder s h s.sources w).outcome = .ok paths) :
    LeavesFiles s h (RendersInOrder s h s.sources w) paths (inOrder s h s.sources w).world := by
  obtain ⟨hpaths, hfiles⟩ := inOrder_files hok
  refine leavesFiles_of_settled (fun _ _ _ => RendersInOrder.unique) hpaths fun source hsource => ?_
  refine (hfiles source hsource).mono ?_
  rintro text ⟨i, other, hi, hp, ht, -⟩
  exact ⟨i, other, hi, hp, ht⟩

theorem atOnce_leaves_files_of_finished {schedule : List Nat} {paths : List Path}
    (hdone : ∀ entry ∈ (poolAfter s h s.sources w schedule).stages,
      ∃ outcome, entry.2 = .finished outcome)
    (hok : (atOnce s h s.sources schedule w).outcome = .ok paths) :
    LeavesFiles s h (RendersAtOnce s h s.sources schedule w) paths
      (atOnce s h s.sources schedule w).world := by
  have hsources : (poolAfter s h s.sources w schedule).stages.map (·.1) = s.sources :=
    Pool.sources_run_start schedule
  have hfiles : (poolAfter s h s.sources w schedule).HasFiles s h
      ((poolAfter s h s.sources w schedule).stages.map (·.1))
      (RendersAtOnce s h s.sources schedule w) := by
    rw [hsources]
    exact Pool.run_hasFiles s.sources _ schedule
  obtain ⟨hpaths, hsettled⟩ := hfiles.outcome hdone hok
  rw [hsources] at hpaths hsettled
  exact leavesFiles_of_settled (fun _ _ _ => Pool.RendersDuring.unique) hpaths hsettled

theorem carriesThrough_scheduleOf (hs : ¬ isSequential s = true) :
    Pool.CarriesThrough (scheduleOf s) s.sources.length := by
  refine Pool.carriesThrough_evenSchedule ?_ _
  simp only [isSequential, Bool.or_eq_true, decide_eq_true_eq, not_or, Nat.not_le] at hs
  omega

theorem CarriesOut.scan {w' : World} (hc : CarriesOut s h Log.mainThread source w w') :
    scan s h source w = (.finished (.ok (s.outputPath source)), w') := by
  obtain ⟨handle, text, w₁, w₂, w₃, hs₁, hs₂, hs₃, hs₄⟩ := hc
  simp only [Scan.scan, stepCount, steps, hs₁, hs₂, hs₃, hs₄]

theorem CarriesOut.run {workers i : Nat} {w' : World} (stages : List (Path × Stage))
    (hi : stages[i]? = some (source, .waiting))
    (hc : CarriesOut s h (Pool.workerName workers i) source w w') :
    Pool.run s h workers (List.replicate stepCount i) ⟨stages, w⟩ =
      ⟨stages.set i (source, .finished (.ok (s.outputPath source))), w'⟩ := by
  obtain ⟨handle, text, w₁, w₂, w₃, hs₁, hs₂, hs₃, hs₄⟩ := hc
  have hlt := (List.getElem?_eq_some_iff.mp hi).1
  simp only [Pool.run, stepCount, List.replicate, List.foldl_cons, List.foldl_nil, Pool.step, hi,
    List.getElem?_set_self, hlt, List.set_set, hs₁, hs₂, hs₃, hs₄]

namespace Sample

/-- The small target beside an empty folder. -/
def twoFolders : Disk := ⟨disk.nodes ++ [(["b"], .folder)]⟩

/-- The disk after the scan of the small target. -/
def withFirst : Disk := ⟨twoFolders.nodes ++ [(["a.txt"], .file text.toUTF8)]⟩

/-- The disk after both scans. -/
def withBoth : Disk := ⟨withFirst.nodes ++ [(["b.txt"], .file .empty)]⟩

def emptyTarget : Path := ⟨.root, ["b"]⟩

def emptyHandle : Handle := ⟨emptyTarget, .folder [], [], []⟩

/-- The settings of a scan of both folders. -/
def bothTargets (jobs : Nat) : Settings :=
  { settings [] with sources := [target, emptyTarget], jobs := jobs }

def results : List Path := [⟨.root, ["a.txt"]⟩, ⟨.root, ["b.txt"]⟩]

def host : Host := .willing [] []

variable (jobs : Nat)

theorem outputPath_first : (bothTargets jobs).outputPath target = ⟨.root, ["a.txt"]⟩ := by cbv

theorem outputPath_second : (bothTargets jobs).outputPath emptyTarget = ⟨.root, ["b.txt"]⟩ := by
  cbv

/-- In the root folder there is nothing to make on the way to a file. -/
theorem makeFolders_root (d : Disk) : d.makeFolders [] .root [] = (.ok (), d) := by
  rw [Disk.makeFolders]
  rfl

theorem replaceFile_root {d : Disk} {name : String} {temporary : Place} {bytes : ByteArray}
    (h : d.temporaryPlace [] ⟨.root, [name]⟩ = .ok temporary) :
    d.replaceFile host ⟨.root, [name]⟩ (some bytes) =
      (d.put temporary (.file .empty)).fillAndRename host temporary ⟨.root, [name]⟩ (some bytes) := by
  simp only [Disk.replaceFile, host, Host.attempt, Host.willing, Path.parent, List.dropLast,
    makeFolders_root, h]

theorem replaceFile_first :
    twoFolders.replaceFile host ((bothTargets jobs).outputPath target) (some text.toUTF8) =
      (.ok (), withFirst) := by
  have htemporary : twoFolders.temporaryPlace [] ⟨.root, ["a.txt"]⟩ =
      .ok [".a.txt.00000000.tmp"] := rfl
  rw [outputPath_first, replaceFile_root htemporary]
  rfl

theorem replaceFile_second :
    withFirst.replaceFile host ((bothTargets jobs).outputPath emptyTarget) (some "".toUTF8) =
      (.ok (), withBoth) := by
  have htemporary : withFirst.temporaryPlace [] ⟨.root, ["b.txt"]⟩ =
      .ok [".b.txt.00000000.tmp"] := rfl
  rw [outputPath_second, replaceFile_root htemporary]
  rfl

/-- The empty folder makes no difference to what is read of the small target. -/
theorem resolve_first : (Handle.resolve twoFolders [] target []).outcome = .ok handle := by
  refine Handle.resolve_folder ["a"] rfl rfl ?_ rfl rfl rfl
  have hfiles : twoFolders.filesBelow ["a"] = [["p", "A.class"], ["p", "B.class"]] :=
    List.mergeSort_of_pairwise (by decide)
  rw [hfiles]
  rfl

theorem table_first : handle.table twoFolders [] = table := by
  rw [← ofFiles_eq_table]
  refine Handle.table_of_folder rfl rfl (by decide) ?_
  exact .cons ⟨rfl, _, rfl, parse_bytesOfA⟩ (.cons ⟨rfl, _, rfl, parse_bytesOfB⟩ .nil)

theorem render_first : (render (bothTargets jobs) twoFolders [] handle).outcome = .ok text := by
  have hsame : render (bothTargets jobs) twoFolders [] handle = render (settings []) disk [] handle := by
    rw [render, table_first, ← table_handle]
    rfl
  rw [hsame, render_target]

theorem resolve_second : (Handle.resolve withFirst [] emptyTarget []).outcome = .ok emptyHandle := by
  cbv

theorem render_second : (render (bothTargets jobs) withFirst [] emptyHandle).outcome = .ok "" :=
  render_of_no_files rfl rfl

theorem exists_first (hw : w.IsUnlogged twoFolders) (thread : String) :
    ∃ w', CarriesOut (bothTargets jobs) host thread target w w' ∧ w'.IsUnlogged withFirst := by
  have hnull : ((bothTargets jobs).outputPath target).hasNull = false := by
    rw [outputPath_first]
    decide
  have hrender : (render (bothTargets jobs) twoFolders host.home handle).outcome = .ok text :=
    render_first jobs
  exact hw.exists_carriesOut hnull resolve_first hrender (replaceFile_first jobs) thread

theorem exists_second (hw : w.IsUnlogged withFirst) (thread : String) :
    ∃ w', CarriesOut (bothTargets jobs) host thread emptyTarget w w' ∧ w'.IsUnlogged withBoth := by
  have hnull : ((bothTargets jobs).outputPath emptyTarget).hasNull = false := by
    rw [outputPath_second]
    decide
  have hrender : (render (bothTargets jobs) withFirst host.home emptyHandle).outcome = .ok "" :=
    render_second jobs
  exact hw.exists_carriesOut hnull resolve_second hrender (replaceFile_second jobs) thread

theorem outcome_inOrder (hw : w.IsUnlogged twoFolders) :
    (inOrder (bothTargets jobs) host [target, emptyTarget] w).outcome = .ok results := by
  obtain ⟨w₁, hc₁, hw₁⟩ := exists_first jobs hw Log.mainThread
  obtain ⟨w₂, hc₂, -⟩ := exists_second jobs hw₁ Log.mainThread
  simp only [inOrder, hc₁.scan, hc₂.scan, outputPath_first, outputPath_second]
  rfl

end Sample

end Scan

end ApiSurface
