/-
ApiSurface.Proofs.ClassPath.Lookup — where an opened handle finds classes.

An opened archive holds every entry that its class table names, so a name of the
target is found in the target or cannot be read; it is never looked for in the
class path. A name that is not the target's is found outside of it, and a name
that no source lists is not found at all.
-/
import ApiSurface.ClassPath.Handle
import ApiSurface.Proofs.ClassPath.Names
import ApiSurface.Proofs.Lists
import ApiSurface.Proofs.Outcome

namespace ApiSurface

theorem Names.mem_of_mem_firstOfEach {α : Type} {entries : List (String × α)}
    {entry : String × α} (h : entry ∈ Names.firstOfEach entries) : entry ∈ entries := by
  have hsub : ∀ rest kept : List (String × α),
      entry ∈ rest.foldl
        (fun kept entry => if kept.any (·.1 == entry.1) then kept else kept ++ [entry]) kept →
      entry ∈ kept ∨ entry ∈ rest := by
    intro rest
    induction rest with
    | nil => exact fun kept hm => .inl hm
    | cons e rest ih =>
      intro kept hm
      rw [List.foldl_cons] at hm
      rcases ih _ hm with hm | hm
      · split at hm
        · exact .inl hm
        · rcases List.mem_append.mp hm with hm | hm
          · exact .inl hm
          · exact .inr (List.mem_singleton.mp hm ▸ List.mem_cons_self)
      · exact .inr (List.mem_cons_of_mem _ hm)
  simpa using hsub entries [] h

namespace Source

/-- The class table of an archive names entries that the archive has. -/
def IsComplete : Source → Prop
  | .archive a classes _ => ∀ c ∈ classes, (a.entry? c.2).isSome
  | .folder _ => True

theorem isComplete_ofArchive {a : Archive} {s : Source} (h : ofArchive a = .ok s) :
    s.IsComplete := by
  unfold ofArchive at h
  split at h
  · cases h
  · cases h
    intro c hc
    obtain ⟨entry, hentry, hname⟩ := List.mem_filterMap.mp (Names.mem_of_mem_firstOfEach hc)
    obtain ⟨e, he, rfl⟩ := List.mem_map.mp hentry
    obtain ⟨_, _, rfl⟩ := Option.map_eq_some_iff.mp hname
    rw [ Archive.entry?, List.find?_isSome]
    exact ⟨e, List.mem_reverse.mpr (List.mem_of_mem_filter he), by simp⟩

theorem isComplete_openAt {d : Disk} {home : Place} {p : Path} {s : Source}
    (h : openAt d home p = .ok s) : s.IsComplete := by
  unfold openAt at h
  split at h
  · cases h
  · split at h
    · cases h
    · cases h
      trivial
    · split at h
      · exact isComplete_ofArchive h
      · cases h

/-- A complete source that lists a name has its bytes, or cannot give them. -/
theorem read_of_mem {s : Source} (hs : s.IsComplete) {d : Disk} {home : Place} {name : String}
    (hn : name ∈ s.names) : s.read d home name ≠ .ok none := by
  cases s with
  | archive a classes isClosed =>
    obtain ⟨entry, hentry⟩ := Option.isSome_iff_exists.mp (lookup_isSome_iff_mem.mpr hn)
    obtain ⟨l₁, l₂, rfl, _⟩ := List.lookup_eq_some_iff.mp hentry
    obtain ⟨e, he⟩ := Option.isSome_iff_exists.mp (hs (name, entry) (by simp))
    simp only [read, hentry, he]
    cases isClosed
    · cases a.readEntry e <;> simp
    · simp
  | folder classes =>
    obtain ⟨p, hp⟩ := Option.isSome_iff_exists.mp (lookup_isSome_iff_mem.mpr hn)
    simp only [read, hp]
    cases d.read home p <;> simp

/-- A source that does not list a name has nothing under it. -/
theorem read_of_not_mem {s : Source} {d : Disk} {home : Place} {name : String}
    (hn : name ∉ s.names) : s.read d home name = .ok none := by
  cases s with
  | archive a classes isClosed =>
    have h : classes.lookup name = none := lookup_eq_none_iff_not_mem.mpr hn
    simp [read, h]
  | folder classes =>
    have h : classes.lookup name = none := lookup_eq_none_iff_not_mem.mpr hn
    simp [read, h]

end Source

namespace Handle

theorem openEntry_eq_ok {d : Disk} {home : Place} {entry : Path} {s : Source}
    (h : openEntry d home entry = .ok s) : Source.openAt d home entry = .ok s := by
  unfold openEntry at h
  cases ho : Source.openAt d home entry with
  | error why => simp [ho, Except.mapError] at h
  | ok s' => simpa [ho, Except.mapError] using h

/-- An opened handle has a complete target. -/
theorem isComplete_own {d : Disk} {home : Place} {target : Path} {classpath : List Path}
    {h : Handle} (hr : (resolve d home target classpath).outcome = .ok h) :
    h.own.IsComplete := by
  obtain ⟨deps, -, hr⟩ := Report.outcome_bind_eq_ok.mp hr
  obtain ⟨own, hown, hr⟩ := Report.outcome_bind_eq_ok.mp hr
  obtain ⟨_, -, hr⟩ := Report.outcome_bind_eq_ok.mp hr
  cases hr
  exact Source.isComplete_openAt (openEntry_eq_ok hown)

/-- An opened handle has a complete class path. -/
theorem isComplete_dependencies {d : Disk} {home : Place} {target : Path} {classpath : List Path}
    {h : Handle} (hr : (resolve d home target classpath).outcome = .ok h) :
    ∀ s ∈ h.dependencies, s.IsComplete := by
  obtain ⟨deps, hdeps, hr⟩ := Report.outcome_bind_eq_ok.mp hr
  obtain ⟨_, -, hr⟩ := Report.outcome_bind_eq_ok.mp hr
  obtain ⟨_, -, hr⟩ := Report.outcome_bind_eq_ok.mp hr
  cases hr
  intro s hs
  obtain ⟨entry, -, hopen⟩ := exists_of_mem_right (mapM_eq_ok.mp hdeps) hs
  exact Source.isComplete_openAt (openEntry_eq_ok hopen)

theorem findIn_of_not_mem {d : Disk} {home : Place} {name : String} {sources : List Source}
    (hn : name ∉ sources.flatMap Source.names) : findIn d home name sources = .ok none := by
  induction sources with
  | nil => rfl
  | cons s rest ih =>
    rw [List.flatMap_cons, List.mem_append, not_or] at hn
    simp [findIn, Source.read_of_not_mem hn.1, ih hn.2, bind, Except.bind]

/-- Complete sources that list a name have its bytes, or cannot give them. -/
theorem findIn_of_mem {d : Disk} {home : Place} {name : String} {sources : List Source}
    (hs : ∀ s ∈ sources, s.IsComplete) (hn : name ∈ sources.flatMap Source.names) :
    findIn d home name sources ≠ .ok none := by
  induction sources with
  | nil => simp at hn
  | cons s rest ih =>
    intro hf
    rw [findIn, bind_eq_ok] at hf
    obtain ⟨bytes?, hb, hf⟩ := hf
    cases bytes? with
    | some bytes => cases hf
    | none =>
      rw [List.flatMap_cons, List.mem_append] at hn
      rcases hn with hn | hn
      · exact Source.read_of_mem (hs s List.mem_cons_self) hn hb
      · exact ih (fun s' hs' => hs s' (List.mem_cons_of_mem _ hs')) hn hf

variable {d : Disk} {home : Place} {h : Handle} {name : String}

/-- A class that a source lists is found, or cannot be read. -/
theorem lookUp_of_mem_names (hown : h.own.IsComplete) (hdeps : ∀ s ∈ h.dependencies, s.IsComplete)
    (hn : name ∈ h.names) : h.lookUp d home name ≠ .ok none := by
  rw [names, Names.mem_distinct, List.mem_append] at hn
  unfold lookUp
  have hfind : h.find d home name ≠ .ok none := by
    intro hf
    rw [find, bind_eq_ok] at hf
    obtain ⟨bytes?, hb, hf⟩ := hf
    cases bytes? with
    | some bytes => cases hf
    | none =>
      obtain ⟨found, hfound, hf⟩ := bind_eq_ok.mp hf
      rcases hn with hn | hn
      · exact Source.read_of_mem hown hn hb
      · cases found with
        | some bytes => cases hf
        | none => exact findIn_of_mem hdeps hn hfound
  split
  · exact nofun
  · next hf => exact absurd hf hfind
  · next bytes scope _ => cases parsed name bytes scope <;> exact nofun

theorem lookUp_of_not_mem_names (hn : name ∉ h.names) : h.lookUp d home name = .ok none := by
  rw [names, Names.mem_distinct, List.mem_append, not_or] at hn
  simp [lookUp, find, Source.read_of_not_mem hn.1, findIn_of_not_mem hn.2, bind, Except.bind,
    pure, Except.pure]

theorem isExternal_parsed {bytes : List UInt8} {scope : Scope} {loaded : Loaded}
    (hp : parsed name bytes scope = .ok loaded) : loaded.isExternal = (scope != .target) := by
  unfold parsed at hp
  split at hp <;> cases hp
  rfl

/-- A class of the target is found in the target. -/
theorem lookUp_of_mem_target (hc : h.own.IsComplete) (hn : name ∈ h.own.names)
    {found : Option Loaded} (hl : h.lookUp d home name = .ok found) :
    ∃ file, found = some ⟨file, false⟩ := by
  unfold lookUp find at hl
  cases hr : h.own.read d home name with
  | error why => simp [hr, bind, Except.bind] at hl
  | ok bytes? =>
    cases bytes? with
    | none => exact absurd hr (Source.read_of_mem hc hn)
    | some bytes =>
      simp only [hr, bind, Except.bind, pure, Except.pure] at hl
      cases hp : parsed name bytes .target with
      | error why => simp [hp, Except.map] at hl
      | ok loaded =>
        simp only [hp, Except.map, Except.ok.injEq] at hl
        have hext : loaded.isExternal = false := isExternal_parsed hp
        exact ⟨loaded.file, by rw [← hl, ← hext]⟩

/-- A class that is not the target's is found outside of the target. -/
theorem isExternal_of_not_mem_target (hn : name ∉ h.own.names) {loaded : Loaded}
    (hl : h.lookUp d home name = .ok (some loaded)) : loaded.isExternal = true := by
  unfold lookUp find at hl
  rw [Source.read_of_not_mem hn] at hl
  simp only [bind, Except.bind, pure, Except.pure] at hl
  cases hf : findIn d home name h.dependencies with
  | error why => simp [hf] at hl
  | ok bytes? =>
    cases bytes? with
    | none => simp [hf] at hl
    | some bytes =>
      simp only [hf, Option.map_some] at hl
      cases hp : parsed name bytes .dependency with
      | error why => simp [hp, Except.map] at hl
      | ok loaded' =>
        simp only [hp, Except.map, Except.ok.injEq, Option.some.injEq] at hl
        rw [← hl, isExternal_parsed hp]
        rfl

end Handle

end ApiSurface
