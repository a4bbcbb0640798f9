/-
ApiSurface.Proofs.Scan.Apart — outputs that lie apart from what is scanned.

Scans put folders on the way to the output folder, and files in it. If no input lies in the
output folder or around it, what they find of an input does not depend on how many scans
have been through before. Nothing that they put there is an input, and an input that is not
there does not come into being: at most its path gets further, and then stops at a name
that is too long for the host instead of a folder that is missing (`Fault.Alike`).

A path with two dots may go through the output folder and leave it again. Then it must not
go back from a place that a scan has to make first (`Settings.KeepsApart.back`); a path that
never goes back does not.

So the outcome of a scan is known before the run (`outcomeAlone`), its fault included.
-/
import ApiSurface.Proofs.Scan.Evolution

namespace ApiSurface

/-! ## 1. Ways that lead back -/

/-- A path goes back by two dots from a place. -/
def Path.LeadsBackFrom (home : Place) (p : Path) (q : Place) : Prop :=
  ∃ front, front ++ [".."] <+: p.parts ∧ q = Path.destination home ⟨p.anchor, front⟩

/-- A name of a path is too long for the host. -/
def Path.HasLongName (p : Path) : Prop := ∃ part ∈ p.parts, Disk.maxNameSize < part.utf8ByteSize

namespace Settings

/-- The inputs and the output folder are apart, and so are the outputs. -/
structure LiesApart (s : Settings) (home : Place) : Prop where
  /-- No two sources have the same output path. -/
  distinct : (s.sources.map s.outputPath).Nodup
  /-- No input is the output folder or lies in it. -/
  notInside : ∀ p ∈ s.inputs, ¬ s.outputFolder.destination home <+: p.destination home
  /-- No input is the output folder or contains it. -/
  notAround : ∀ p ∈ s.inputs, ¬ p.destination home <+: s.outputFolder.destination home

/-- The inputs and the output folder are apart, and no path gets where it leads only after a
scan has made a folder. -/
structure KeepsApart (s : Settings) (home : Place) (d : Disk) : Prop extends s.LiesApart home where
  /-- Where a path goes back from a place in the output folder, or on the way to it, there is
  something from the start. -/
  back : ∀ p ∈ s.outputFolder :: s.inputs, ∀ q, p.LeadsBackFrom home q →
    s.outputFolder.OnTheWay home q ∨ s.outputFolder.destination home <+: q → (d.node? q).isSome

/-- Where no path goes back, it is enough that the inputs and the output folder are apart. -/
theorem LiesApart.keepsApart {s : Settings} {home : Place} {d : Disk} (ha : s.LiesApart home)
    (hdots : ∀ p ∈ s.outputFolder :: s.inputs, ".." ∉ p.parts) : s.KeepsApart home d where
  toLiesApart := ha
  back := by
    rintro p hp q ⟨front, ⟨rest, hparts⟩, -⟩
    exact absurd (hparts ▸ by simp) (hdots p hp)

/-- The number of workers makes no difference to this. -/
theorem KeepsApart.withJobs {s : Settings} {home : Place} {d : Disk} (ha : s.KeepsApart home d)
    (jobs : Nat) : Settings.KeepsApart { s with jobs := jobs } home d :=
  ⟨⟨ha.distinct, ha.notInside, ha.notAround⟩, ha.back⟩

end Settings

theorem Path.destination_concat {home : Place} {anchor : Anchor} {front : List String}
    {part : String} (h : part ≠ "..") :
    Path.destination home ⟨anchor, front ++ [part]⟩ =
      Path.destination home ⟨anchor, front⟩ ++ [part] :=
  Path.destination_child home ⟨anchor, front⟩ h

theorem Disk.IsTree.none_below {d : Disk} (ht : d.IsTree) {q : Place} (hn : d.node? q = none)
    (part : String) : d.node? (q ++ [part]) = none := by
  rw [Option.eq_none_iff_forall_ne_some]
  intro node hnode
  have hfolder := ht.onTheWay q part [] (by rw [hnode]; rfl)
  rw [hn] at hfolder
  cases hfolder

namespace Settings.KeepsApart

variable {s : Settings} {home q : Place} {d d' : Disk} {p : Path}
variable (ha : s.KeepsApart home d) (ht : d.IsTree)
include ha ht

omit ht in
/-- No path goes back from a missing place that scans may make. -/
theorem ne_dots (hp : p ∈ s.outputFolder :: s.inputs) {front : List String} {part : String}
    (hparts : front ++ [part] <+: p.parts)
    (hplace : s.outputFolder.OnTheWay home (Path.destination home ⟨p.anchor, front⟩) ∨
      s.outputFolder.destination home <+: Path.destination home ⟨p.anchor, front⟩)
    (hn : d.node? (Path.destination home ⟨p.anchor, front⟩) = none) : part ≠ ".." := by
  rintro rfl
  have hsome := ha.back p hp _ ⟨front, hparts, rfl⟩ hplace
  rw [hn] at hsome
  cases hsome

/-- On the way to the output folder nothing comes behind what is missing, and each place lies
in the one before it. -/
theorem missing_behind {front rest : List String} (hrest : front ++ rest <+: s.outputFolder.parts)
    (hn : d.node? (Path.destination home ⟨s.outputFolder.anchor, front⟩) = none) :
    d.node? (Path.destination home ⟨s.outputFolder.anchor, front ++ rest⟩) = none ∧
      Path.destination home ⟨s.outputFolder.anchor, front⟩ <+:
        Path.destination home ⟨s.outputFolder.anchor, front ++ rest⟩ := by
  induction rest using List.reverseRecOn with
  | nil =>
    rw [List.append_nil]
    exact ⟨hn, List.prefix_refl _⟩
  | append_singleton rest part ih =>
    rw [← List.append_assoc] at hrest ⊢
    have hbegin := (List.prefix_append (front ++ rest) [part]).trans hrest
    obtain ⟨hmissing, hbelow⟩ := ih hbegin
    have hdots : part ≠ ".." :=
      ha.ne_dots List.mem_cons_self hrest (.inl ⟨front ++ rest, hbegin, rfl⟩) hmissing
    rw [Path.destination_concat hdots]
    exact ⟨ht.none_below hmissing part, hbelow.trans (List.prefix_append _ _)⟩

/-- What is missing on the way to the output folder contains it. -/
theorem around_of_missing (hq : s.outputFolder.OnTheWay home q) (hn : d.node? q = none) :
    q <+: s.outputFolder.destination home := by
  obtain ⟨front, ⟨rest, hparts⟩, rfl⟩ := hq
  have hwhole : front ++ rest <+: s.outputFolder.parts := hparts ▸ List.prefix_refl _
  have hbehind := ha.missing_behind ht hwhole hn
  rw [hparts] at hbehind
  exact hbehind.2

/-- On the way to the output folder nothing is missing in it. -/
theorem isSome_inside {part : String}
    (hq : s.outputFolder.OnTheWay home (s.outputFolder.destination home ++ [part])) :
    (d.node? (s.outputFolder.destination home ++ [part])).isSome := by
  by_contra hnone
  rw [Option.not_isSome_iff_eq_none] at hnone
  have hlength := (ha.around_of_missing ht hq hnone).length_le
  simp at hlength

/-- Replacing an output ends as it would at the start. -/
theorem fst_replaceFile {h : Host} (hhome : h.home = home) (hd : s.Drifts home d d')
    (source : Path) (hnull : ¬ (s.outputPath source).hasNull = true) (content : Option ByteArray) :
    (d'.replaceFile h (s.outputPath source) content).1 =
      (d.replaceFile h (s.outputPath source) content).1 := by
  subst hhome
  refine hd.fst_replaceFile (Settings.outputName_ne source) (fun hnull' => hnull ?_) ?_
    (fun part => ha.isSome_inside ht) ?_ content
  · exact Disk.hasNull_append hnull'
  · rintro front back ⟨rest, rfl⟩ hback hn
    exact (ha.missing_behind ht hback hn).1
  · rintro q ⟨a, -, rfl⟩
    exact ⟨_, Settings.destination_outputPath a, fun n => Settings.outputName_ne_temporary a _ n⟩

omit ht in
/-- No output is read from. -/
theorem unread_of_writes (hq : s.Writes home q) : s.Unread home q := by
  intro p hp
  refine hq.definesNone.not_reads ?_
  obtain ⟨source, -, rfl⟩ := hq
  rw [Settings.destination_outputPath]
  intro heq
  exact ha.notInside p hp (heq ▸ List.prefix_append _ _)

/-! ## 2. Inputs that are not there -/

/-- What is missing on the way of an input does not lie in the output folder. -/
theorem not_inside_of_missing (hp : p ∈ s.inputs) {front rest : List String}
    (hparts : front ++ rest = p.parts)
    (hn : d.node? (Path.destination home ⟨p.anchor, front⟩) = none) :
    ¬ s.outputFolder.destination home <+: Path.destination home ⟨p.anchor, front⟩ := by
  intro hinside
  induction rest generalizing front with
  | nil =>
    rw [List.append_nil] at hparts
    subst hparts
    exact ha.notInside p hp hinside
  | cons part rest ih =>
    have hparts' : (front ++ [part]) ++ rest = p.parts := by
      rw [← hparts]
      simp
    have hdots : part ≠ ".." :=
      ha.ne_dots (List.mem_cons_of_mem _ hp) ⟨rest, hparts'⟩ (.inr hinside) hn
    refine ih hparts' ?_ ?_
    · rw [Path.destination_concat hdots]
      exact ht.none_below hn part
    · rw [Path.destination_concat hdots]
      exact hinside.trans (List.prefix_append _ _)

/-- An input that is not there does not come into being. -/
theorem node?_input_eq_none (hd : s.Drifts home d d') (hp : p ∈ s.inputs)
    (hn : d.node? (p.destination home) = none) : d'.node? (p.destination home) = none := by
  rw [Option.eq_none_iff_forall_ne_some]
  intro node hn'
  rcases hd.fresh _ node hn hn' with ⟨-, hmade⟩ | ⟨-, source, -, hplace⟩
  · exact ha.notAround p hp (ha.around_of_missing ht hmade hn)
  · rw [Settings.destination_outputPath] at hplace
    exact ha.notInside p hp (hplace ▸ List.prefix_append _ _)

/-- A path of an input that stops because something is missing still does so, or gets to a name
that is too long, or to its end, where nothing is. -/
theorem follow_missing (hd : s.Drifts home d d') (hp : p ∈ s.inputs) {front rest : List String}
    (hparts : front ++ rest = p.parts)
    (hn : d.node? (Path.destination home ⟨p.anchor, front⟩) = none) :
    d'.follow (Path.destination home ⟨p.anchor, front⟩) rest = .error .missing ∨
      (d'.follow (Path.destination home ⟨p.anchor, front⟩) rest = .error .nameTooLong ∧
        p.HasLongName) ∨
      d'.follow (Path.destination home ⟨p.anchor, front⟩) rest = .ok (p.destination home) ∧
        d'.node? (p.destination home) = none := by
  induction rest generalizing front with
  | nil =>
    rw [List.append_nil] at hparts
    subst hparts
    exact .inr (.inr ⟨rfl, ha.node?_input_eq_none ht hd hp hn⟩)
  | cons part rest ih =>
    cases hn' : d'.node? (Path.destination home ⟨p.anchor, front⟩) with
    | none => exact .inl (Disk.follow_of_stops (.missing hn') rest)
    | some node =>
      have hinside := ha.not_inside_of_missing ht hp hparts hn
      rcases hd.fresh _ node hn hn' with ⟨rfl, hmade⟩ | ⟨-, source, -, hplace⟩
      · -- The place is one that a scan has made on the way to the output folder.
        have hparts' : (front ++ [part]) ++ rest = p.parts := by
          rw [← hparts]
          simp
        have hdots : part ≠ ".." :=
          ha.ne_dots (List.mem_cons_of_mem _ hp) ⟨rest, hparts'⟩ (.inl hmade) hn
        by_cases hlong : Disk.maxNameSize < part.utf8ByteSize
        · exact .inr (.inl ⟨Disk.follow_of_stops (.nameTooLong hn' hdots hlong) rest, part,
            by rw [← hparts]; simp, hlong⟩)
        · have hnext := ih hparts'
            (by rw [Path.destination_concat hdots]; exact ht.none_below hn part)
          rw [Path.destination_concat hdots] at hnext
          rw [Disk.follow_goOn hn' (.inr (Nat.not_lt.mp hlong)), Path.goOn, if_neg hdots]
          exact hnext
      · rw [Settings.destination_outputPath] at hplace
        exact absurd (hplace ▸ List.prefix_append _ _) hinside

/-- An input that is missing is missing later, or is found to have a name that is too long. -/
theorem find_eq_missing (hd : s.Drifts home d d') (hp : p ∈ s.inputs)
    (hl : d.locate home p = .error .missing) :
    d'.find home p = .error .missing ∨
      p.HasLongName ∧ d'.find home p = .error .nameTooLong := by
  have hnull : ¬ p.hasNull = true := by
    intro hnull
    rw [Disk.locate, if_pos hnull] at hl
    cases hl
  rw [Disk.locate_eq_follow hnull] at hl
  obtain ⟨front, part, back, hparts, hfront, hstops⟩ := Disk.follow_eq_error_iff.mp hl
  cases hstops with
  | missing hn =>
  have hfollow : d'.locate home p =
      d'.follow (Path.destination home ⟨p.anchor, front⟩) (part :: back) := by
    rw [Disk.locate_eq_follow hnull, hparts]
    exact Disk.follow_append (hd.preserves.follow hfront) _
  rw [Disk.find_eq_error_iff, Disk.find_eq_error_iff, hfollow]
  rcases ha.follow_missing ht hd hp hparts.symm hn with h | ⟨h, hlong⟩ | ⟨h, hnone⟩
  · exact .inl (.inl h)
  · exact .inr ⟨hlong, .inl h⟩
  · exact .inl (.inr ⟨h, hnone, rfl⟩)

/-- An input that is not found is not found later, for the same cause but for names that are
too long. -/
theorem find_eq_error (hd : s.Drifts home d d') (hp : p ∈ s.inputs) {why : Trouble}
    (hf : d.find home p = .error why) :
    d'.find home p = .error why ∨
      p.HasLongName ∧ why = .missing ∧ d'.find home p = .error .nameTooLong := by
  rcases Disk.find_eq_error_iff.mp hf with hl | ⟨hl, hn, rfl⟩
  · by_cases hmissing : why = .missing
    · subst hmissing
      exact (ha.find_eq_missing ht hd hp hl).imp_right fun ⟨hlong, hf'⟩ => ⟨hlong, rfl, hf'⟩
    · exact .inl (Disk.find_eq_error_iff.mpr (.inl (hd.locate_eq_error hl hmissing)))
  · have hn' := ha.node?_input_eq_none ht hd hp hn
    exact .inl (Disk.find_eq_error_iff.mpr (.inr ⟨hd.preserves.locate hl, hn', rfl⟩))

end Settings.KeepsApart

/-! ## 3. Outcomes that are known from the start -/

/-- Two faults are the same; or both say that an input cannot be opened which has a name that
is too long for the host. -/
inductive Fault.Alike (inputs : List Path) : Fault → Fault → Prop where
  | same (why : Fault) : Alike inputs why why
  | tooLong {p : Path} (why why' : Trouble) : p ∈ inputs → p.HasLongName →
      Alike inputs (.cannotOpen p (.host why)) (.cannotOpen p (.host why'))

namespace Fault.Alike

variable {inputs : List Path} {a b c : Fault}

theorem symm (h : Alike inputs a b) : Alike inputs b a := by
  cases h with
  | same => exact .same _
  | tooLong why why' hp hlong => exact .tooLong why' why hp hlong

theorem trans (h : Alike inputs a b) (h' : Alike inputs b c) : Alike inputs a c := by
  cases h with
  | same => exact h'
  | tooLong why why' hp hlong =>
    cases h' with
    | same => exact .tooLong why why' hp hlong
    | tooLong _ why'' => exact .tooLong why why'' hp hlong

end Fault.Alike

/-- Two computations give the same, or fail with faults that are alike. -/
abbrev SameEnd (inputs : List Path) {α : Type} : Except Fault α → Except Fault α → Prop :=
  EndAlike (Fault.Alike inputs) Eq

namespace SameEnd

variable {inputs : List Path} {α : Type} {x y z : Except Fault α}

/-- Where no name is too long, this is equality. -/
theorem eq_of_short (h : SameEnd inputs x y) (hshort : ∀ p ∈ inputs, ¬ p.HasLongName) : x = y := by
  cases h with
  | error he =>
    cases he with
    | same => rfl
    | tooLong why why' hp hlong => exact absurd hlong (hshort _ hp)
  | ok hr => rw [hr]

theorem refl (x : Except Fault α) : SameEnd inputs x x := EndAlike.refl .same (fun _ => rfl) x

theorem symm (h : SameEnd inputs x y) : SameEnd inputs y x := by
  cases h with
  | error he => exact .error he.symm
  | ok hr => exact .ok hr.symm

theorem trans (h : SameEnd inputs x y) (h' : SameEnd inputs y z) : SameEnd inputs x z := by
  cases h with
  | error he =>
    cases h' with
    | error he' => exact .error (he.trans he')
  | ok hr =>
    cases h' with
    | ok hr' => exact .ok (hr.trans hr')

/-- What goes on from the same results in the same way ends alike. -/
theorem bind {β : Type} {f g : α → Except Fault β} (h : SameEnd inputs x y)
    (hfg : ∀ a, y = .ok a → SameEnd inputs (f a) (g a)) : SameEnd inputs (x >>= f) (y >>= g) := by
  cases h with
  | error he => exact .error he
  | ok hr =>
    subst hr
    exact hfg _ rfl

/-- What begins with a fault ends with it. -/
theorem bind_error {β : Type} {why : Fault} {g : α → Except Fault β}
    (h : SameEnd inputs (.error why) y) : SameEnd inputs (.error why) (y >>= g) := by
  cases h with
  | error he => exact .error he

theorem mapM {β : Type} {f g : β → Except Fault α} {l : List β}
    (h : ∀ b ∈ l, SameEnd inputs (f b) (g b)) : SameEnd inputs (l.mapM f) (l.mapM g) := by
  induction l with
  | nil => exact .refl _
  | cons b rest ih =>
    obtain ⟨hb, hrest⟩ := List.forall_mem_cons.mp h
    rw [List.mapM_cons, List.mapM_cons]
    exact hb.bind fun a _ => (ih hrest).bind fun others _ => .refl _

end SameEnd

theorem Source.openAt_of_find_error {d : Disk} {home : Place} {p : Path} {why : Trouble}
    (hf : d.find home p = .error why) : openAt d home p = .error (.host why) := by
  unfold openAt
  rcases Disk.find_eq_error_iff.mp hf with hl | ⟨hl, hn, rfl⟩
  · rw [hl]
  · simp only [hl, hn]

namespace Scan

variable {s : Settings} {h : Host} {source : Path} {stage : Stage} {w : World} {d d' : Disk}
  {thread : String}

/-- What the scan of a source comes to on a disk, if nothing else happens there. -/
def outcomeAlone (s : Settings) (h : Host) (d : Disk) (source : Path) : Except Fault Path :=
  if (s.outputPath source).hasNull then .error .nullInPath
  else do
    let text ← textOf s h d source
    let () ← (d.replaceFile h (s.outputPath source) (some text.toUTF8)).1.mapError
      (writeFault (s.outputPath source))
    return s.outputPath source

section

variable (ha : s.KeepsApart h.home d) (ht : d.IsTree) (hd : s.Drifts h.home d d')
include ha ht hd

/-- An input is opened later as it would be at the start. -/
theorem openEntry_apart {p : Path} (hp : p ∈ s.inputs) :
    SameEnd s.inputs (Handle.openEntry d' h.home p) (Handle.openEntry d h.home p) := by
  cases hf : d.find h.home p with
  | ok node =>
    have hunread : ∀ q, s.Unread h.home q ∨ s.Writes h.home q → ¬ p.Reads h.home q := fun q hq =>
      hq.elim (fun hq => hq p hp) fun hq => ha.unread_of_writes hq p hp
    rw [Handle.openEntry, Handle.openEntry, Source.openAt_evolves ht.leads hd hunread hf]
    exact .refl _
  | error why =>
    rw [Handle.openEntry, Handle.openEntry, Source.openAt_of_find_error hf]
    rcases ha.find_eq_error ht hd hp hf with hf' | ⟨hlong, rfl, hf'⟩
    · rw [Source.openAt_of_find_error hf']
      exact .refl _
    · rw [Source.openAt_of_find_error hf']
      exact .error (.tooLong _ _ hp hlong)

theorem resolve_apart (hsource : source ∈ s.sources) :
    SameEnd s.inputs (Handle.resolve d' h.home source s.classpath).outcome
      (Handle.resolve d h.home source s.classpath).outcome := by
  rw [Handle.resolve, Handle.resolve]
  simp only [Report.outcome_bind, Report.outcome_ofExcept]
  have hclasspath := SameEnd.mapM fun p hp =>
    openEntry_apart ha ht hd (p := p) (List.mem_append_right _ hp)
  have htarget := openEntry_apart ha ht hd (p := source) (List.mem_append_left _ hsource)
  exact hclasspath.bind fun dependencies _ => htarget.bind fun own _ => .refl _

/-- A source has the text later that it would have at the start. -/
theorem textOf_apart (hsource : source ∈ s.sources) :
    SameEnd s.inputs (textOf s h d' source) (textOf s h d source) := by
  have hresolve := resolve_apart ha ht hd hsource
  cases hopen : (Handle.resolve d h.home source s.classpath).outcome with
  | ok handle =>
    rw [textOf_drifts ht.leads (fun q => ha.unread_of_writes) hsource hd hopen]
    exact .refl _
  | error why =>
    rw [hopen] at hresolve
    cases hopen' : (Handle.resolve d' h.home source s.classpath).outcome with
    | ok handle =>
      rw [hopen'] at hresolve
      cases hresolve
    | error why' =>
      rw [hopen'] at hresolve
      rw [textOf, textOf, hopen, hopen']
      cases hresolve with
      | error hwhy => exact .error hwhy

end

/-! ## 4. Scans in the company of others -/

/-- A scan goes towards the outcome that it would have alone on a disk. -/
def Stage.Foretold (s : Settings) (h : Host) (d : Disk) (source : Path) : Stage → Prop
  | .waiting => True
  | .announced | .opened _ | .rendered _ => ¬ (s.outputPath source).hasNull = true
  | .finished outcome => SameEnd s.inputs outcome (outcomeAlone s h d source)

theorem foretold_advance {α : Type} {x : Report Fault α} {next : α → Stage}
    (hok : ∀ a, x.outcome = .ok a → (next a).Foretold s h d source)
    (herror : ∀ why, x.outcome = .error why →
      SameEnd s.inputs (.error why) (outcomeAlone s h d source)) :
    (advance source x next).1.Foretold s h d source := by
  unfold advance
  split
  · next a ha => exact hok a ha
  · next why hwhy => exact herror why hwhy

theorem outcomeAlone_of_text_error (hnull : ¬ (s.outputPath source).hasNull = true) {why : Fault}
    (ht : SameEnd s.inputs (.error why) (textOf s h d source)) :
    SameEnd s.inputs (.error why) (outcomeAlone s h d source) := by
  rw [outcomeAlone, if_neg hnull]
  exact ht.bind_error

/-- A step of a scan keeps this up, whatever scans have done to the disk before. -/
theorem Stage.Foretold.step (hf : stage.Foretold s h d source)
    (hc : stage.IsCurrent s h source w.disk) (ha : s.KeepsApart h.home d) (ht : d.IsTree)
    (hd : s.Drifts h.home d w.disk) (hsource : source ∈ s.sources) (thread : String) :
    (Scan.step s h thread source stage w).1.Foretold s h d source := by
  have htext := textOf_apart ha ht hd hsource
  cases stage with
  | waiting =>
    unfold Scan.step announce
    split_ifs with hnull
    · rw [Stage.Foretold, outcomeAlone, if_pos hnull]
      exact .refl _
    · exact hnull
  | announced =>
    refine foretold_advance (fun handle _ => hf) fun why hwhy => ?_
    refine outcomeAlone_of_text_error hf ?_
    rw [textOf, hwhy] at htext
    exact htext
  | opened handle =>
    refine foretold_advance (fun text _ => hf) fun why hwhy => ?_
    refine outcomeAlone_of_text_error hf ?_
    have hc : (Handle.resolve w.disk h.home source s.classpath).outcome = .ok handle := hc
    simp only [textOf, hc, bind, Except.bind, hwhy] at htext
    exact htext
  | rendered text =>
    obtain ⟨report, d', hwrite⟩ :
        ∃ r d', write h w.disk (s.outputPath source) (some text.toUTF8) = (r, d') := ⟨_, _, rfl⟩
    rw [step_rendered hwrite]
    have halone : textOf s h d source = .ok text := htext.eq_ok_iff.mp hc
    have houtcome := (write_eq hwrite).1
    rw [ha.fst_replaceFile ht rfl hd source hf] at houtcome
    have hplain : outcomeAlone s h d source =
        report.outcome >>= fun _ => .ok (s.outputPath source) := by
      rw [outcomeAlone, if_neg hf, halone, houtcome]
      rfl
    refine foretold_advance (fun _ hok => ?_) fun why hwhy => ?_
    · rw [Stage.Foretold, hplain, hok]
      exact .refl _
    · rw [hplain, hwhy]
      exact .refl _
  | finished outcome => exact hf

end Scan

end ApiSurface
