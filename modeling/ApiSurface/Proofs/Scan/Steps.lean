/-
ApiSurface.Proofs.Scan.Steps — what one step of a scan may do.

A step writes a file, or it changes no file but the log (`step_cases`). A written file can
be written over by a scan with the same output path only: records are not added to it,
because a log file in whose place it came is no longer the log file, and temporary files
come at places where nothing is.

A scan is finished after four steps whatever happens, and has at most one text on the way.
A scan that meets no trouble is carried out.
-/
import ApiSurface.Proofs.Disk.Preserves
import ApiSurface.Scan.Target

namespace ApiSurface

/-! ## 1. Output paths -/

theorem Settings.outputName_ne (source : Path) :
    Settings.withoutArchiveEnding source.name ++ ".txt" ≠ ".." := by
  intro h
  have hlast := congrArg (fun name : String => name.toList.getLast?) h
  simp at hlast

/-- Output paths that lead to the same place are the same. -/
theorem Settings.outputPath_inj {s : Settings} {home : Place} {a b : Path}
    (h : (s.outputPath a).destination home = (s.outputPath b).destination home) :
    s.outputPath a = s.outputPath b := by
  rw [outputPath, outputPath, Path.destination_child _ _ (outputName_ne a),
    Path.destination_child _ _ (outputName_ne b)] at h
  rw [outputPath, outputPath, List.singleton_inj.mp (List.append_cancel_left h)]

/-! ## 2. Files beside a log -/

/-- A path means a file with some bytes, and the log goes elsewhere. -/
structure Log.State.Keeps (l : Log.State) (home : Place) (p : Path) (bytes : ByteArray) : Prop where
  file : l.disk.HasFile home p bytes
  unlogged : ∀ sinks f, l.sinks = some sinks → sinks.file = some f →
    f.place = p.destination home → f.isReplaced = true

namespace Log.State.Keeps

variable {l : Log.State} {home : Place} {p : Path} {bytes : ByteArray}

/-- Records do not get into the file. -/
theorem deliver (h : l.Keeps home p bytes) (r : Record) : (l.deliver r).Keeps home p bytes := by
  unfold State.deliver
  split
  · exact h
  next sinks hsinks =>
  split
  · exact h
  next f hf =>
  refine ⟨?_, fun sinks' f' hsinks' hf' => h.unlogged sinks' f' hsinks' hf'⟩
  by_cases hplace : f.place = p.destination home
  · have hempty : keptInFile sinks f l.stamp r = "" := by
      simp [keptInFile, h.unlogged sinks f hsinks hf hplace]
    refine ⟨Disk.preserves_append.locate h.file.locate, ?_⟩
    have hne : p.destination home ≠ [] := Disk.ne_nil_of_node? (d := l.disk) (by simp [h.file.node])
    have happend : bytes ++ "".toUTF8 = bytes := ByteArray.append_empty
    rw [hplace, hempty, Disk.append, h.file.node]
    dsimp only
    rw [Disk.node?_put hne, if_pos rfl, happend]
  · exact h.file.preserved Disk.preserves_append (Ne.symm hplace)

theorem deliverAll (h : l.Keeps home p bytes) (records : List Record) :
    (l.deliverAll records).Keeps home p bytes := by
  induction records generalizing l with
  | nil => exact h
  | cons r records ih => exact ih (h.deliver r)

/-- The file stays when other files are changed, and when a log file is replaced. -/
theorem preserved (h : l.Keeps home p bytes) {changed : Place → Prop} {d : Disk}
    (hd : Disk.Preserves changed l.disk d) (hc : ¬ changed (p.destination home)) :
    Log.State.Keeps { l with disk := d } home p bytes :=
  ⟨h.file.preserved hd hc, h.unlogged⟩

end Log.State.Keeps

/-- A file that has come in the place of a log file is no longer the log file. -/
theorem Log.State.keeps_withFile {l : Log.State} {home : Place} {p : Path} {bytes : ByteArray}
    {d : Disk} {place : Place} (hfile : d.HasFile home p bytes)
    (h : ∀ sinks f, l.sinks = some sinks → sinks.file = some f → f.place = p.destination home →
      f.isReplaced = true ∨ f.place = place) :
    (l.withFile d place).Keeps home p bytes := by
  refine ⟨hfile, fun sinks f hsinks hf hplace => ?_⟩
  obtain ⟨sinks, hs, rfl⟩ := Option.map_eq_some_iff.mp hsinks
  obtain ⟨f, hfile, rfl⟩ := Option.map_eq_some_iff.mp hf
  split_ifs at hplace ⊢ with hreplaced
  · rfl
  · exact (h sinks f hs hfile hplace).resolve_right hreplaced

/-! ## 3. One step -/

namespace Scan

variable {s : Settings} {h : Host} {thread : String} {source : Path} {stage : Stage} {w : World}

/-- A write succeeds and leaves its content, or fails and spares everything. -/
theorem write_cases {d d' : Disk} {p : Path} {bytes : ByteArray} {report : Report Fault Unit}
    (hw : write h d p (some bytes) = (report, d')) :
    (∃ why, report.outcome = .error why ∧ Disk.Spares d d') ∨
    (report.outcome = .ok () ∧ d'.HasFile h.home p bytes ∧
      Disk.Preserves (· = p.destination h.home) d d') := by
  have hcases := d.replaceFile_cases h p bytes
  unfold write at hw
  split at hw
  · next why d' heq =>
    cases hw
    rw [heq] at hcases
    rcases hcases with ⟨_, -, hspares⟩ | ⟨hok, -⟩
    · exact .inl ⟨_, rfl, hspares⟩
    · cases hok
  · next d' heq =>
    cases hw
    rw [heq] at hcases
    rcases hcases with ⟨_, hwhy, -⟩ | ⟨-, hfile, hpreserves⟩
    · cases hwhy
    · exact .inr ⟨rfl, hfile, hpreserves⟩

theorem keeps_leave {w : World} {home : Place} {p : Path} {bytes : ByteArray}
    (hk : w.log.Keeps home p bytes) (records : List Log.Record) :
    (w.leave thread records).log.Keeps home p bytes := hk.deliverAll _

section

variable {home : Place} {p output : Path} {bytes content : ByteArray} {d : Disk}

theorem disk_withWritten (w : World) (home : Place) (p : Path) (hasSucceeded : Bool) (d : Disk) :
    (w.withWritten home p hasSucceeded d).disk = d := by
  unfold World.withWritten
  split <;> rfl

theorem log_withWritten (hfile : d.HasFile home output content) :
    (w.withWritten home output true d).log = w.log.withFile d (output.destination home) := by
  unfold World.withWritten
  rw [hfile.locate]

/-- Nothing is logged into a file that was written. -/
theorem keeps_withWritten (hfile : d.HasFile home output content) :
    (w.withWritten home output true d).log.Keeps home output content := by
  rw [log_withWritten hfile]
  exact Log.State.keeps_withFile hfile fun _ _ _ _ hplace => .inr hplace

/-- Another file stays as it is. -/
theorem keeps_withWritten_of_ne (hk : w.log.Keeps home p bytes)
    (hfile : d.HasFile home output content)
    (hd : Disk.Preserves (· = output.destination home) w.disk d)
    (hne : p.destination home ≠ output.destination home) :
    (w.withWritten home output true d).log.Keeps home p bytes := by
  rw [log_withWritten hfile]
  exact Log.State.keeps_withFile (hk.file.preserved hd hne) fun sinks f hs hf hplace =>
    .inl (hk.unlogged sinks f hs hf hplace)

end

theorem advance_ne_finished {α : Type} {x : Report Fault α} {next : α → Stage} {output : Path}
    (hnext : ∀ a, next a ≠ .finished (.ok output)) :
    (advance source x next).1 ≠ .finished (.ok output) := by
  unfold advance
  split
  · exact hnext _
  · simp

/-- The step that writes the text of a scan. -/
theorem step_rendered {text : String} {report : Report Fault Unit} {d' : Disk}
    (hw : write h w.disk (s.outputPath source) (some text.toUTF8) = (report, d')) :
    step s h thread source (.rendered text) w =
      ((advance source report fun () => .finished (.ok (s.outputPath source))).1,
        (w.withWritten h.home (s.outputPath source) report.outcome.isOk d').leave thread
          (advance source report fun () => .finished (.ok (s.outputPath source))).2) := by
  unfold step
  dsimp only
  rw [hw]

/-- What a step may do to written files: nothing, or write one. -/
theorem step_cases (s : Settings) (h : Host) (thread : String) (source : Path) (stage : Stage)
    (w : World) :
    ((∀ p bytes, w.log.Keeps h.home p bytes →
        (step s h thread source stage w).2.log.Keeps h.home p bytes) ∧
      ∀ output, (step s h thread source stage w).1 = .finished (.ok output) →
        stage = .finished (.ok output)) ∨
    ∃ text, stage = .rendered text ∧
      (step s h thread source stage w).1 = .finished (.ok (s.outputPath source)) ∧
      (step s h thread source stage w).2.log.Keeps h.home (s.outputPath source) text.toUTF8 ∧
      ∀ p bytes, p.destination h.home ≠ (s.outputPath source).destination h.home →
        w.log.Keeps h.home p bytes →
        (step s h thread source stage w).2.log.Keeps h.home p bytes := by
  cases stage with
  | waiting =>
    refine .inl ⟨fun p bytes hk => keeps_leave hk _, fun output ho => absurd ho ?_⟩
    unfold step announce
    split_ifs <;> simp
  | announced =>
    exact .inl ⟨fun p bytes hk => keeps_leave hk _,
      fun output ho => absurd ho (advance_ne_finished fun _ => by simp)⟩
  | opened handle =>
    exact .inl ⟨fun p bytes hk => keeps_leave hk _,
      fun output ho => absurd ho (advance_ne_finished fun _ => by simp)⟩
  | rendered text =>
    obtain ⟨report, d', hw⟩ :
        ∃ r d', write h w.disk (s.outputPath source) (some text.toUTF8) = (r, d') := ⟨_, _, rfl⟩
    rw [step_rendered hw]
    rcases write_cases hw with ⟨why, hwhy, hspares⟩ | ⟨hok, hfile, hpreserves⟩
    · refine .inl ⟨fun p bytes hk => keeps_leave ?_ _, fun output ho => absurd ho ?_⟩
      · rw [hwhy]
        exact hk.preserved hspares id
      · simp [advance, hwhy]
    · have hsucceeded : report.outcome.isOk = true := by rw [hok]; rfl
      rw [hsucceeded]
      exact .inr ⟨text, rfl, by simp [advance, hok], keeps_leave (keeps_withWritten hfile) _,
        fun p bytes hne hk => keeps_leave (keeps_withWritten_of_ne hk hfile hpreserves hne) _⟩
  | finished outcome => exact .inl ⟨fun p bytes hk => hk, fun output ho => ho⟩

/-- A file holds one of some texts, and the log goes elsewhere. -/
def Settled (home : Place) (renders : String → Prop) (p : Path) (w : World) : Prop :=
  ∃ text, renders text ∧ w.log.Keeps home p text.toUTF8

theorem Settled.mono {home : Place} {renders renders' : String → Prop} {p : Path}
    (hs : Settled home renders p w) (h : ∀ text, renders text → renders' text) :
    Settled home renders' p w := by
  obtain ⟨text, ht, hk⟩ := hs
  exact ⟨text, h text ht, hk⟩

/-- A step leaves an output file as it is, or writes it anew for a source with the same
output path. -/
theorem Settled.step {renders : String → Prop} {a : Path}
    (hs : Settled h.home renders (s.outputPath a) w)
    (hr : ∀ text, stage = .rendered text → s.outputPath source = s.outputPath a → renders text) :
    Settled h.home renders (s.outputPath a) (step s h thread source stage w).2 := by
  obtain ⟨old, hold, hk⟩ := hs
  rcases step_cases s h thread source stage w with ⟨hkeeps, -⟩ | ⟨text, rfl, -, hnew, hkeeps⟩
  · exact ⟨old, hold, hkeeps _ _ hk⟩
  · by_cases hp : s.outputPath source = s.outputPath a
    · exact ⟨text, hr text rfl hp, by rw [← hp]; exact hnew⟩
    · exact ⟨old, hold, hkeeps _ _ (fun hd => hp (Settings.outputPath_inj hd).symm) hk⟩

/-- A step with which a scan succeeds has written its text. -/
theorem step_finishes {output : Path}
    (hf : (step s h thread source stage w).1 = .finished (.ok output))
    (hne : stage ≠ .finished (.ok output)) :
    ∃ text, stage = .rendered text ∧ output = s.outputPath source ∧
      (step s h thread source stage w).2.log.Keeps h.home (s.outputPath source) text.toUTF8 := by
  rcases step_cases s h thread source stage w with ⟨-, hfinished⟩ | ⟨text, rfl, hok, hnew, -⟩
  · exact absurd (hfinished output hf) hne
  · rw [hok] at hf
    cases hf
    exact ⟨text, rfl, rfl, hnew⟩

/-! ## 4. Scans are finished after four steps -/

/-- How many steps a scan has taken at least, if it takes four in all. -/
def Stage.rank : Stage → Nat
  | .waiting => 0
  | .announced => 1
  | .opened _ => 2
  | .rendered _ => 3
  | .finished _ => 4

theorem rank_advance {α : Type} {x : Report Fault α} {next : α → Stage} {n : Nat}
    (hn : n ≤ stepCount) (hnext : ∀ a, n ≤ (next a).rank) : n ≤ (advance source x next).1.rank := by
  unfold advance
  split
  · exact hnext _
  · exact hn

theorem one_le_rank_announce (h : Host) (output : Path) : 1 ≤ (announce h output).1.rank := by
  unfold announce
  split_ifs
  · exact Nat.le_add_left 1 3
  · exact Nat.le_refl 1

theorem rank_step (s : Settings) (h : Host) (thread : String) (source : Path) (stage : Stage)
    (w : World) : min stepCount (stage.rank + 1) ≤ (step s h thread source stage w).1.rank := by
  cases stage with
  | waiting => exact one_le_rank_announce h (s.outputPath source)
  | announced => exact rank_advance (Nat.min_le_left _ _) fun _ => Nat.le_refl 2
  | opened handle => exact rank_advance (Nat.min_le_left _ _) fun _ => Nat.le_refl 3
  | rendered text => exact rank_advance (Nat.min_le_left _ _) fun _ => Nat.le_refl 4
  | finished outcome => exact Nat.le_refl 4

theorem exists_outcome_of_rank (hr : stepCount ≤ stage.rank) : ∃ outcome, stage = .finished outcome := by
  cases stage with
  | finished outcome => exact ⟨outcome, rfl⟩
  | _ => simp [Stage.rank, stepCount] at hr

/-- A scan has this text behind it, or just now has it. -/
def Stage.IsPast (stage : Stage) (text : String) : Prop :=
  stage = .rendered text ∨ stepCount ≤ stage.rank

theorem Stage.IsPast.step {text : String} (hp : stage.IsPast text) :
    (step s h thread source stage w).1.IsPast text := by
  have hrank : 3 ≤ stage.rank := by
    rcases hp with rfl | hp
    · exact Nat.le_refl 3
    · exact Nat.le_of_succ_le hp
  have hstep := rank_step s h thread source stage w
  exact .inr (by unfold stepCount at *; omega)

/-- A scan that is past a text does not have another one. -/
theorem Stage.IsPast.eq {text other : String} (hp : (Stage.rendered other).IsPast text) :
    other = text := by
  rcases hp with hp | hp
  · cases hp
    rfl
  · simp [rank, stepCount] at hp

/-! ## 5. Scans that meet no trouble -/

/-- Four steps of a thread take a scan through, from one world to another. -/
def CarriesOut (s : Settings) (h : Host) (thread : String) (source : Path) (w w' : World) : Prop :=
  ∃ handle text w₁ w₂ w₃, step s h thread source .waiting w = (.announced, w₁) ∧
    step s h thread source .announced w₁ = (.opened handle, w₂) ∧
    step s h thread source (.opened handle) w₂ = (.rendered text, w₃) ∧
    step s h thread source (.rendered text) w₃ = (.finished (.ok (s.outputPath source)), w')

/-- A world whose scans leave no log file. -/
def World.IsUnlogged (w : World) (d : Disk) : Prop := w.log = ⟨none, d, ""⟩

namespace World.IsUnlogged

variable {s : Settings} {h : Host} {source : Path} {w : World} {d d' : Disk} {thread : String}

theorem leave (hw : w.IsUnlogged d) (records : List Log.Record) :
    (w.leave thread records).IsUnlogged d := by
  have hall : ∀ l : List Log.Record, Log.State.deliverAll ⟨none, d, ""⟩ l = ⟨none, d, ""⟩ := by
    intro l
    induction l with
    | nil => rfl
    | cons r l ih => exact ih
  unfold World.leave IsUnlogged at *
  dsimp only
  rw [hw, hall]

theorem announce (hw : w.IsUnlogged d) (hnull : (s.outputPath source).hasNull = false) :
    ∃ w', step s h thread source .waiting w = (.announced, w') ∧ w'.IsUnlogged d :=
  ⟨_, by rw [step, Scan.announce, if_neg (by simp [hnull])], hw.leave _⟩

theorem openTarget (hw : w.IsUnlogged d) {handle : Handle}
    (hopen : (Handle.resolve d h.home source s.classpath).outcome = .ok handle) :
    ∃ w', step s h thread source .announced w = (.opened handle, w') ∧ w'.IsUnlogged d := by
  have hdisk : w.disk = d := by rw [World.disk, hw]
  exact ⟨_, by rw [step, hdisk, advance, hopen], hw.leave _⟩

theorem render (hw : w.IsUnlogged d) {handle : Handle} {text : String}
    (hrender : (Scan.render s d h.home handle).outcome = .ok text) :
    ∃ w', step s h thread source (.opened handle) w = (.rendered text, w') ∧ w'.IsUnlogged d := by
  have hdisk : w.disk = d := by rw [World.disk, hw]
  exact ⟨_, by rw [step, hdisk, advance, hrender], hw.leave _⟩

theorem refuseText (hw : w.IsUnlogged d) {handle : Handle} {why : Fault}
    (hrender : (Scan.render s d h.home handle).outcome = .error why) :
    ∃ w', step s h thread source (.opened handle) w = (.finished (.error why), w') ∧
      w'.IsUnlogged d := by
  have hdisk : w.disk = d := by rw [World.disk, hw]
  exact ⟨_, by rw [step, hdisk, advance, hrender], hw.leave _⟩

theorem write (hw : w.IsUnlogged d) {text : String}
    (hreplace : d.replaceFile h (s.outputPath source) (some text.toUTF8) = (.ok (), d')) :
    ∃ w', step s h thread source (.rendered text) w = (.finished (.ok (s.outputPath source)), w') ∧
      w'.IsUnlogged d' := by
  have hdisk : w.disk = d := by rw [World.disk, hw]
  obtain ⟨report, hwrite, hok⟩ : ∃ report, Scan.write h w.disk (s.outputPath source)
      (some text.toUTF8) = (report, d') ∧ report.outcome = .ok () := by
    rw [hdisk, Scan.write, hreplace]
    exact ⟨_, rfl, rfl⟩
  refine ⟨_, by rw [step_rendered hwrite, advance, hok], leave ?_ _⟩
  unfold withWritten IsUnlogged
  rw [hw]
  split <;> rfl

/-- A scan that meets no trouble is carried out. -/
theorem exists_carriesOut (hw : w.IsUnlogged d) {handle : Handle} {text : String}
    (hnull : (s.outputPath source).hasNull = false)
    (hopen : (Handle.resolve d h.home source s.classpath).outcome = .ok handle)
    (hrender : (Scan.render s d h.home handle).outcome = .ok text)
    (hreplace : d.replaceFile h (s.outputPath source) (some text.toUTF8) = (.ok (), d'))
    (thread : String) : ∃ w', CarriesOut s h thread source w w' ∧ w'.IsUnlogged d' := by
  obtain ⟨w₁, hs₁, hw₁⟩ := hw.announce hnull
  obtain ⟨w₂, hs₂, hw₂⟩ := hw₁.openTarget hopen
  obtain ⟨w₃, hs₃, hw₃⟩ := hw₂.render hrender
  obtain ⟨w₄, hs₄, hw₄⟩ := hw₃.write hreplace
  exact ⟨w₄, ⟨handle, text, w₁, w₂, w₃, hs₁, hs₂, hs₃, hs₄⟩, hw₄⟩

end World.IsUnlogged

end Scan

end ApiSurface
