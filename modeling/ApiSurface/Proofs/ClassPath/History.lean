/-
ApiSurface.Proofs.ClassPath.History — asking one handle for classes again and again.

`Answers` says what asking for a class gives, by the sources alone: the class file of the
first source that defines the class, parsed, or the fault of reading or parsing this one.
There is one such answer, and looking the class up finds it (`answers_iff_lookUp`).

What a handle remembers are such answers. So the answers do not depend on what was asked
before (`Recalls.load`, and `Recalls.afterLoads` for a whole history), and what was answered
once is answered after the handle is closed, when the sources cannot be read any more.
-/
import ApiSurface.Proofs.ClassFile.RoundTrip
import ApiSurface.Proofs.ClassPath.Lookup

namespace ApiSurface.Handle

variable {d : Disk} {home : Place} {h h' : Handle} {name : String}

/-! ## 1. The first definition -/

/-- The sources of a handle, the target first. -/
def scopes (h : Handle) : List (Scope × Source) :=
  (.target, h.own) :: h.dependencies.map (.dependency, ·)

/-- A source defines a class, and none in front of it does. -/
def IsFirst (h : Handle) (name : String) (scope : Scope) (s : Source) : Prop :=
  name ∈ s.names ∧ ∃ before after, h.scopes = before ++ (scope, s) :: after ∧
    ∀ other ∈ before, name ∉ other.2.names

/-- What asking for a class gives, by the sources of a handle. -/
inductive Answers (d : Disk) (home : Place) (h : Handle) (name : String) :
    Except Fault (Option Loaded) → Prop where
  | undefined (hnone : ∀ s ∈ h.scopes, name ∉ s.2.names) : Answers d home h name (.ok none)
  | unreadable {scope : Scope} {s : Source} {why : ReadFault} (hfirst : h.IsFirst name scope s)
      (hread : s.read d home name = .error why) :
      Answers d home h name
        (.error (if why.isReported then .cannotRead name h.target why else .reading why))
  | malformed {scope : Scope} {s : Source} {bytes : List UInt8} {why : Malformed}
      (hfirst : h.IsFirst name scope s) (hread : s.read d home name = .ok (some bytes))
      (hparse : ClassFile.parse bytes = .error (.malformed why)) :
      Answers d home h name (.error (.cannotParse name why))
  | illTyped {scope : Scope} {s : Source} {bytes : List UInt8} {why : IllTyped}
      (hfirst : h.IsFirst name scope s) (hread : s.read d home name = .ok (some bytes))
      (hparse : ClassFile.parse bytes = .error (.illTyped why)) :
      Answers d home h name (.error (.classFile (.illTyped why)))
  | parsed {scope : Scope} {s : Source} {bytes : List UInt8} {file : ClassFile}
      (hfirst : h.IsFirst name scope s) (hread : s.read d home name = .ok (some bytes))
      (hparse : ClassFile.parse bytes = .ok file) :
      Answers d home h name (.ok (some ⟨file, scope != .target⟩))

theorem IsFirst.mem_scopes {scope : Scope} {s : Source} (hs : h.IsFirst name scope s) :
    (scope, s) ∈ h.scopes := by
  obtain ⟨-, before, after, heq, -⟩ := hs
  rw [heq]
  simp

/-- A class that some source defines has a first definition. -/
theorem exists_isFirst (hname : ∃ s ∈ h.scopes, name ∈ s.2.names) :
    ∃ scope s, h.IsFirst name scope s := by
  have hfind : (h.scopes.find? fun s => decide (name ∈ s.2.names)).isSome := by
    simpa [List.find?_isSome] using hname
  obtain ⟨⟨scope, s⟩, hs⟩ := Option.isSome_iff_exists.mp hfind
  obtain ⟨hdefines, before, after, heq, hbefore⟩ := List.find?_eq_some_iff_append.mp hs
  exact ⟨scope, s, by simpa using hdefines, before, after, heq, by simpa using hbefore⟩

/-! ## 2. Looking a class up -/

/-- The sources hold all that they list. -/
def IsComplete (h : Handle) : Prop := ∀ s ∈ h.scopes, s.2.IsComplete

theorem isComplete_of_resolve {target : Path} {classpath : List Path}
    (hr : (resolve d home target classpath).outcome = .ok h) : h.IsComplete := by
  intro s hs
  rcases List.mem_cons.mp hs with rfl | hs
  · exact isComplete_own hr
  · obtain ⟨source, hsource, rfl⟩ := List.mem_map.mp hs
    exact isComplete_dependencies hr source hsource

theorem findIn_of_first {s : Source} {before after : List Source}
    (hbefore : ∀ other ∈ before, name ∉ other.names) (hread : s.read d home name ≠ .ok none) :
    findIn d home name (before ++ s :: after) = s.read d home name := by
  induction before with
  | nil =>
    rw [List.nil_append, findIn]
    cases hs : s.read d home name with
    | error why => rfl
    | ok bytes? =>
      cases bytes? with
      | none => exact absurd hs hread
      | some bytes => rfl
  | cons other before ih =>
    obtain ⟨hother, hbefore⟩ := List.forall_mem_cons.mp hbefore
    rw [List.cons_append, findIn, Source.read_of_not_mem hother]
    exact ih hbefore

/-- What the first source that defines a class reads is what is found. -/
theorem find_of_isFirst {scope : Scope} {s : Source} (hs : h.IsFirst name scope s)
    (hread : s.read d home name ≠ .ok none) :
    h.find d home name = (s.read d home name).map (Option.map (·, scope)) := by
  obtain ⟨-, before, after, heq, hbefore⟩ := hs
  rcases List.cons_eq_append_iff.mp heq with ⟨rfl, hcons⟩ | ⟨before, rfl, hdeps⟩
  · cases hcons
    rw [find]
    cases hr : h.own.read d home name with
    | error why => rfl
    | ok bytes? =>
      cases bytes? with
      | none => exact absurd hr hread
      | some bytes => rfl
  · obtain ⟨hown, hbefore⟩ := List.forall_mem_cons.mp hbefore
    obtain ⟨others, rest, hsplit, rfl, hrest⟩ := List.map_eq_append_iff.mp hdeps
    obtain ⟨s', after', rfl, hs', -⟩ := List.map_eq_cons_iff.mp hrest
    cases hs'
    have hothers : ∀ other ∈ others, name ∉ other.names := fun other hother =>
      hbefore _ (List.mem_map_of_mem hother)
    have hfound : findIn d home name (others ++ s :: after') = s.read d home name :=
      findIn_of_first hothers hread
    rw [find, Source.read_of_not_mem hown, hsplit, ← hfound]
    cases findIn d home name (others ++ s :: after') <;> rfl

theorem not_mem_names_of_scopes (hnone : ∀ s ∈ h.scopes, name ∉ s.2.names) : name ∉ h.names := by
  obtain ⟨hown, hdeps⟩ := List.forall_mem_cons.mp hnone
  rw [names, Names.mem_distinct, List.mem_append, not_or, List.mem_flatMap]
  refine ⟨hown, ?_⟩
  rintro ⟨s, hs, hname⟩
  exact hdeps (.dependency, s) (List.mem_map_of_mem hs) hname

/-- The class file that the first source reads is parsed. -/
theorem lookUp_of_isFirst {scope : Scope} {s : Source} {bytes : List UInt8}
    (hfirst : h.IsFirst name scope s) (hread : s.read d home name = .ok (some bytes)) :
    h.lookUp d home name = (parsed name bytes scope).map some := by
  rw [lookUp, find_of_isFirst hfirst (by simp [hread]), hread]
  rfl

/-- A class is looked up as the sources answer. -/
theorem Answers.lookUp_eq {answer : Except Fault (Option Loaded)} (ha : h.Answers d home name answer) :
    h.lookUp d home name = answer := by
  cases ha with
  | undefined hnone => exact lookUp_of_not_mem_names (not_mem_names_of_scopes hnone)
  | unreadable hfirst hread =>
    rw [lookUp, find_of_isFirst hfirst (by simp [hread]), hread]
    rfl
  | malformed hfirst hread hparse =>
    rw [lookUp_of_isFirst hfirst hread, Handle.parsed, hparse]
    rfl
  | illTyped hfirst hread hparse =>
    rw [lookUp_of_isFirst hfirst hread, Handle.parsed, hparse]
    rfl
  | parsed hfirst hread hparse =>
    rw [lookUp_of_isFirst hfirst hread, Handle.parsed, hparse]
    rfl

/-- The sources of a complete handle answer for every class. -/
theorem exists_answers (hc : h.IsComplete) (d : Disk) (home : Place) (name : String) :
    ∃ answer, h.Answers d home name answer := by
  by_cases hname : ∃ s ∈ h.scopes, name ∈ s.2.names
  · obtain ⟨scope, s, hfirst⟩ := exists_isFirst hname
    have hread : s.read d home name ≠ .ok none :=
      Source.read_of_mem (hc _ hfirst.mem_scopes) hfirst.1
    cases hr : s.read d home name with
    | error why => exact ⟨_, .unreadable hfirst hr⟩
    | ok bytes? =>
      cases bytes? with
      | none => exact absurd hr hread
      | some bytes =>
        cases hp : ClassFile.parse bytes with
        | ok file => exact ⟨_, .parsed hfirst hr hp⟩
        | error why =>
          cases why with
          | malformed why => exact ⟨_, .malformed hfirst hr hp⟩
          | illTyped why => exact ⟨_, .illTyped hfirst hr hp⟩
  · push Not at hname
    exact ⟨_, .undefined hname⟩

/-- Looking a class up finds what the sources answer, and they answer nothing else. -/
theorem answers_iff_lookUp (hc : h.IsComplete) {answer : Except Fault (Option Loaded)} :
    h.Answers d home name answer ↔ h.lookUp d home name = answer := by
  refine ⟨Answers.lookUp_eq, ?_⟩
  rintro rfl
  obtain ⟨answer, ha⟩ := exists_answers hc d home name
  rwa [ha.lookUp_eq]

/-! ## 3. Histories -/

/-- The handle after some classes were asked for. -/
def afterLoads (d : Disk) (home : Place) (h : Handle) (names : List String) : Handle :=
  names.foldl (fun h name => (h.load d home name).2) h

/-- A handle has the sources of another one, and remembers what these answer. -/
structure Recalls (d : Disk) (home : Place) (h h' : Handle) : Prop where
  target : h'.target = h.target
  own : h'.own = h.own
  dependencies : h'.dependencies = h.dependencies
  loaded : ∀ name found, h'.loaded.lookup name = some found → h.lookUp d home name = .ok found

/-- A handle that remembers nothing remembers nothing wrong. -/
theorem Recalls.refl (hempty : h.loaded = []) : Recalls d home h h where
  target := rfl
  own := rfl
  dependencies := rfl
  loaded name found hl := by simp [hempty] at hl

namespace Recalls

variable (hr : Recalls d home h h')
include hr

theorem lookUp_eq : h'.lookUp d home name = h.lookUp d home name := by
  simp only [lookUp, find, hr.own, hr.dependencies, hr.target]

/-- One more class is answered as the sources answer, and this is remembered too. -/
theorem load (name : String) :
    (h'.load d home name).1 = h.lookUp d home name ∧ Recalls d home h (h'.load d home name).2 := by
  unfold Handle.load
  cases hl : h'.loaded.lookup name with
  | some found => exact ⟨(hr.loaded name found hl).symm, hr⟩
  | none =>
    simp only [hr.lookUp_eq]
    cases ho : h.lookUp d home name with
    | error why => exact ⟨rfl, hr⟩
    | ok found =>
      refine ⟨rfl, hr.target, hr.own, hr.dependencies, fun other answer hother => ?_⟩
      rw [List.lookup_cons] at hother
      by_cases heq : other = name
      · subst heq
        simp only [beq_self_eq_true, Option.some_inj] at hother
        rw [← hother, ho]
      · have hb : (other == name) = false := by simp [heq]
        rw [hb] at hother
        exact hr.loaded other answer hother

theorem afterLoads (names : List String) : Recalls d home h (h'.afterLoads d home names) := by
  induction names generalizing h' with
  | nil => exact hr
  | cons name names ih => exact ih (hr.load name).2

end Recalls

/-! ## 4. Memory -/

/-- A handle remembers the answer for a class. -/
def Remembers (h : Handle) (name : String) (found : Option Loaded) : Prop :=
  h.loaded.lookup name = some found

namespace Remembers

variable {found : Option Loaded}

theorem load_eq (hm : h.Remembers name found) (d : Disk) (home : Place) :
    h.load d home name = (.ok found, h) := by
  rw [load, show h.loaded.lookup name = some found from hm]

/-- A result is remembered. -/
theorem of_load (hl : (h.load d home name).1 = .ok found) :
    (h.load d home name).2.Remembers name found := by
  unfold Handle.load at hl ⊢
  cases hm : h.loaded.lookup name with
  | some answer =>
    rw [hm] at hl
    cases hl
    exact hm
  | none =>
    rw [hm] at hl
    cases ho : h.lookUp d home name with
    | error why => simp [ho] at hl
    | ok answer =>
      simp only [ho, Except.ok.injEq] at hl
      simp [Remembers, hl]

/-- What is remembered stays so, whatever is asked for. -/
theorem load (hm : h.Remembers name found) (d : Disk) (home : Place) (other : String) :
    (h.load d home other).2.Remembers name found := by
  by_cases heq : other = name
  · rw [heq, hm.load_eq]
    exact hm
  · unfold Handle.load
    cases h.loaded.lookup other with
    | some answer => exact hm
    | none =>
      cases h.lookUp d home other with
      | error why => exact hm
      | ok answer =>
        have hb : (name == other) = false := by simp [Ne.symm heq]
        simpa [Remembers, List.lookup_cons, hb] using hm

theorem afterLoads (hm : h.Remembers name found) (d : Disk) (home : Place) (names : List String) :
    (h.afterLoads d home names).Remembers name found := by
  induction names generalizing h with
  | nil => exact hm
  | cons other names ih => exact ih (hm.load d home other)

/-- A class that was asked for with a result is remembered in the end. -/
theorem of_mem (hr : Recalls d home h h') {names : List String} (hname : name ∈ names)
    (hl : h.lookUp d home name = .ok found) : (h'.afterLoads d home names).Remembers name found := by
  induction names generalizing h' with
  | nil => cases hname
  | cons other names ih =>
    obtain ⟨hanswer, hrest⟩ := hr.load other
    rcases List.mem_cons.mp hname with rfl | hname
    · exact (of_load (hanswer.trans hl)).afterLoads d home names
    · exact ih hrest hname

end Remembers

theorem loaded_of_resolve {target : Path} {classpath : List Path}
    (hr : (resolve d home target classpath).outcome = .ok h) : h.loaded = [] := by
  obtain ⟨deps, -, hr⟩ := Report.outcome_bind_eq_ok.mp hr
  obtain ⟨own, -, hr⟩ := Report.outcome_bind_eq_ok.mp hr
  obtain ⟨_, -, hr⟩ := Report.outcome_bind_eq_ok.mp hr
  cases hr
  rfl

/-- Whatever was asked before, asking an opened handle for a class gives what asking it first
would give, and this is the one answer of its sources. What was answered once is also
answered after the handle is closed. -/
theorem load_after_history {target : Path} {classpath : List Path}
    (hr : (resolve d home target classpath).outcome = .ok h) (history : List String) (name : String) :
    ((h.afterLoads d home history).load d home name).1 = (h.load d home name).1 ∧
      (∀ answer, (h.load d home name).1 = answer ↔ h.Answers d home name answer) ∧
      ∀ found, name ∈ history → (h.load d home name).1 = .ok found → ∀ d' later,
        (((h.afterLoads d home history).close.afterLoads d' home later).load d' home name).1 =
          .ok found := by
  have hself : Recalls d home h h := .refl (loaded_of_resolve hr)
  have hfirst := (hself.load name).1
  refine ⟨?_, fun answer => ?_, fun found hname hl d' later => ?_⟩
  · rw [((hself.afterLoads history).load name).1, hfirst]
  · rw [hfirst, answers_iff_lookUp (isComplete_of_resolve hr)]
  · have hm := Remembers.of_mem hself hname (hfirst.symm.trans hl)
    have hclosed : (h.afterLoads d home history).close.Remembers name found := hm
    rw [(hclosed.afterLoads d' home later).load_eq]

/-! ## 5. A class that is defined twice

The target holds a file that is no class, and the class path a class of the same name and
another one. -/

namespace Shadowed

/-- The class `p.B`. -/
def bytes : List UInt8 := [
  0xCA, 0xFE, 0xBA, 0xBE, 0, 0, 0, 52, 0, 5,
  1, 0, 3, 112, 47, 66, 7, 0, 1,
  1, 0, 16, 106, 97, 118, 97, 47, 108, 97, 110, 103, 47, 79, 98, 106, 101, 99, 116, 7, 0, 3,
  0, 0x21, 0, 2, 0, 4, 0, 0, 0, 0, 0, 0, 0, 0]

def disk : Disk := ⟨[
  (["a"], .folder), (["a", "A.class"], .file .empty),
  (["b"], .folder), (["b", "A.class"], .file ⟨bytes.toArray⟩), (["b", "B.class"], .file ⟨bytes.toArray⟩)]⟩

def target : Path := ⟨.root, ["a"]⟩

def library : Path := ⟨.root, ["b"]⟩

def librarySource : Source :=
  .folder [("A", ⟨.root, ["b", "A.class"]⟩), ("B", ⟨.root, ["b", "B.class"]⟩)]

def handle : Handle where
  target := target
  own := .folder [("A", ⟨.root, ["a", "A.class"]⟩)]
  dependencies := [librarySource]
  loaded := []

theorem openAt_target : Source.openAt disk [] target = .ok handle.own := by
  have hl : disk.locate [] target = .ok ["a"] := rfl
  have hn : disk.node? ["a"] = some .folder := rfl
  have hbelow : disk.filesBelow ["a"] = [["A.class"]] := List.mergeSort_singleton _
  have hA : classDefinedBy? ("/".intercalate ["A.class"]) = some "A" := by decide
  simp only [Source.openAt, hl, hn, hbelow, Source.ofFolder, List.filterMap_cons, hA]
  rfl

theorem openAt_library : Source.openAt disk [] library = .ok librarySource := by
  have hl : disk.locate [] library = .ok ["b"] := rfl
  have hn : disk.node? ["b"] = some .folder := rfl
  have hbelow : disk.filesBelow ["b"] = [["A.class"], ["B.class"]] :=
    List.mergeSort_of_pairwise (by decide)
  have hA : classDefinedBy? ("/".intercalate ["A.class"]) = some "A" := by decide
  have hB : classDefinedBy? ("/".intercalate ["B.class"]) = some "B" := by decide
  simp only [Source.openAt, hl, hn, hbelow, Source.ofFolder, List.filterMap_cons, hA, hB]
  rfl

theorem resolve_target : (resolve disk [] target [library]).outcome = .ok handle := by
  simp only [resolve, openEntry, List.mapM_cons, openAt_library, openAt_target]
  rfl

/-- The class of the class path. -/
def file : ClassFile where
  major := 52
  minor := 0
  flags := 0x21
  name := "p.B"
  superclass := some "java.lang.Object"
  interfaces := []
  signature := none
  fields := []
  methods := []
  annotations := []
  innerClasses := []
  enclosing := none

/-- The entries of its pool. -/
def entries : List Constant := [.utf8 "p/B", .classRef 1, .utf8 "java/lang/Object", .classRef 3]

theorem written_bytes : file.Written bytes := by
  have hchunks : List.Forall₂ Constant.Written entries _ :=
    .cons (Constant.written_utf8 (by decide)) <| .cons (.classRef (by decide)) <|
    .cons (Constant.written_utf8 (by decide)) <| .cons (.classRef (by decide)) .nil
  have hpool : Pool.Written entries _ := ⟨by decide, _, hchunks, rfl⟩
  have hname : ClassAt entries file.name [0, 2] :=
    ⟨2, 1, "p/B", ⟨entries.take 1, entries.drop 2, rfl, rfl⟩, ⟨[], entries.drop 1, rfl, rfl⟩,
      by decide, rfl⟩
  have hsuperclass : OptionalAt (ClassAt entries) file.superclass [0, 4] :=
    ⟨4, 3, "java/lang/Object", ⟨entries.take 3, entries.drop 4, rfl, rfl⟩,
      ⟨entries.take 2, entries.drop 3, rfl, rfl⟩, by decide, rfl⟩
  have hinterfaces : Counted (ClassAt entries) file.interfaces [0, 0] := ⟨by decide, [], .nil, rfl⟩
  have hfields : Counted (FieldInfo.Written entries) file.fields [0, 0] :=
    ⟨by decide, [], .nil, rfl⟩
  have hmethods : Counted (MethodInfo.Written entries) file.methods [0, 0] :=
    ⟨by decide, [], .nil, rfl⟩
  have hnone : Counted (Attribute.Written entries) [] [0, 0] := ⟨by decide, [], .nil, rfl⟩
  exact .intro (by decide) (by decide) (by decide) hpool hname hsuperclass hinterfaces
    hfields hmethods hnone (by simp [Attribute.Gives, file]) ⟨[], .nil, rfl⟩
    (by simp [Attribute.Gives, file]) ⟨[], .nil, rfl⟩

theorem parse_bytes : ClassFile.parse bytes = .ok file := by
  rw [ClassFile.parse, written_bytes.takes.run]
  rfl

theorem load_eq_lookUp (name : String) : (handle.load disk [] name).1 = handle.lookUp disk [] name :=
  ((Recalls.refl rfl).load name).1

theorem load_twice : (handle.load disk [] "A").1 = .error (.cannotParse "A" .truncated) := by
  have hfind : handle.find disk [] "A" = .ok (some ([], .target)) := rfl
  have hparse : ClassFile.parse [] = .error (.malformed .truncated) := rfl
  rw [load_eq_lookUp, lookUp, hfind]
  simp only [parsed, hparse]
  rfl

theorem load_once : (handle.load disk [] "B").1 = .ok (some ⟨file, true⟩) := by
  have hfind : handle.find disk [] "B" = .ok (some (bytes, .dependency)) := rfl
  rw [load_eq_lookUp, lookUp, hfind]
  simp only [parsed, parse_bytes]
  rfl

end Shadowed

/-- The file of the target hides the class of the class path before and after both classes are
asked for, and the other class is still known when the folders are gone. -/
theorem load_after_history_shadowed :
    (resolve Shadowed.disk [] Shadowed.target [Shadowed.library]).outcome = .ok Shadowed.handle ∧
      ((Shadowed.handle.afterLoads Shadowed.disk [] ["A", "B"]).load Shadowed.disk [] "A").1 =
        .error (.cannotParse "A" .truncated) ∧
      "B" ∈ ["A", "B"] ∧
      (Shadowed.handle.load Shadowed.disk [] "B").1 = .ok (some ⟨Shadowed.file, true⟩) ∧
      (((Shadowed.handle.afterLoads Shadowed.disk [] ["A", "B"]).close.afterLoads .empty [] ["A"]).load
        .empty [] "B").1 = .ok (some ⟨Shadowed.file, true⟩) := by
  refine ⟨Shadowed.resolve_target, ?_, by decide, Shadowed.load_once, ?_⟩
  · exact (load_after_history Shadowed.resolve_target ["A", "B"] "A").1.trans Shadowed.load_twice
  · exact (load_after_history Shadowed.resolve_target ["A", "B"] "B").2.2 _ (by decide)
      Shadowed.load_once .empty ["A"]

end ApiSurface.Handle
