/-
ApiSurface.Proofs.Settings.Effective — the settings that a document and a command line make.

The settings file says a value, to whatever reader is handed in, and the command line is
laid over the settings that this value gives. The outcome is decided by the two together
(`settings_of_document`): `IsRefused` lists why they are refused, and nothing else goes wrong.
If they are not refused, there is at least one job, the class path of the document comes first,
and the method exclusions of a class are those of the document and those of the command line.

An option that is given as nothing has no value to go wrong with. Such a command line ends
with a fault that is not foreseen (`settings_absent_count`).
-/
import ApiSurface.CommandLine.Overrides
import ApiSurface.Proofs.Settings.Documents
import Mathlib.Data.List.TakeWhile

namespace ApiSurface

/-! ## 1. Overloads -/

namespace Text

theorem trimBoth_eq_nil_iff {α : Type} {p : α → Bool} {l : List α} :
    trimBoth p l = [] ↔ ∀ a ∈ l, p a = true := by
  rw [trimBoth, List.reverse_eq_nil_iff, List.dropWhile_eq_nil_iff]
  constructor
  · intro h a ha
    by_contra hp
    have hmem : a ∈ l.dropWhile p := by
      rw [← List.takeWhile_append_dropWhile (p := p) (l := l), List.mem_append] at ha
      exact ha.resolve_left fun ht => hp (List.mem_takeWhile_imp ht)
    exact hp (h a (List.mem_reverse.mpr hmem))
  · exact fun h a ha => h a ((List.dropWhile_suffix p).subset (List.mem_reverse.mp ha))

/-- A text of blanks, and no other, has nothing left when it is stripped. -/
theorem strip_eq_empty_iff {s : String} : strip s = "" ↔ ∀ c ∈ s.toList, isBlank c = true := by
  rw [← trimBoth_eq_nil_iff, strip, ← String.toList_inj, String.toList_ofList]
  rfl

end Text

namespace Overload

/-- A text has two sides of its first number sign. -/
def HasSides (text : String) (before behind : List Char) : Prop :=
  text.toList = before ++ '#' :: behind ∧ '#' ∉ before

/-- A text has no number sign, or a side of the first one is blank. -/
def IsMalformed (text : String) : Prop :=
  '#' ∉ text.toList ∨ ∃ before behind, HasSides text before behind ∧
    ((∀ c ∈ before, Text.isBlank c = true) ∨ ∀ c ∈ behind, Text.isBlank c = true)

/-- A text spells an overload by the two sides of its first number sign, without the blanks
around them. -/
def Spells (text : String) (o : Overload) : Prop :=
  ∃ before behind, HasSides text before behind ∧
    o = ⟨Text.strip (String.ofList before), Text.strip (String.ofList behind)⟩

theorem exists_hasSides {text : String} (h : '#' ∈ text.toList) :
    ∃ before behind, HasSides text before behind :=
  List.eq_append_cons_of_mem h

theorem parse_of_no_sign {text : String} (h : '#' ∉ text.toList) :
    parse text = .error (.badExclusion text) := by
  have hnil : text.toList.dropWhile (· != '#') = [] :=
    List.dropWhile_eq_nil_iff.mpr fun c hc => by
      have : c ≠ '#' := fun heq => h (heq ▸ hc)
      simpa using this
  rw [parse]
  simp only [hnil]

theorem HasSides.parse_eq {text : String} {before behind : List Char}
    (h : HasSides text before behind) :
    parse text =
      if Text.strip (String.ofList before) = "" ∨ Text.strip (String.ofList behind) = "" then
        .error (.badExclusion text)
      else .ok ⟨Text.strip (String.ofList before), Text.strip (String.ofList behind)⟩ := by
  have hbefore : ∀ c ∈ before, (c != '#') = true := fun c hc => by
    have : c ≠ '#' := fun heq => h.2 (heq ▸ hc)
    simpa using this
  have hdrop : text.toList.dropWhile (· != '#') = '#' :: behind := by
    rw [h.1, List.dropWhile_append_of_pos hbefore]
    rfl
  have htake : text.toList.takeWhile (· != '#') = before := by
    rw [h.1, List.takeWhile_append_of_pos hbefore]
    simp
  rw [parse]
  simp only [hdrop, htake, Bool.or_eq_true, decide_eq_true_eq]

/-- A text has one pair of sides. -/
theorem HasSides.unique {text : String} {before behind before' behind' : List Char}
    (h : HasSides text before behind) (h' : HasSides text before' behind') :
    before = before' ∧ behind = behind' := by
  have heq := h.1.symm.trans h'.1
  rcases List.append_eq_append_iff.mp heq with ⟨more, rfl, hmore⟩ | ⟨more, rfl, hmore⟩
  · rcases List.cons_eq_append_iff.mp hmore with ⟨rfl, hcons⟩ | ⟨more, rfl, -⟩
    · exact ⟨by simp, (List.cons.inj hcons).2.symm⟩
    · exact absurd (by simp) h'.2
  · rcases List.cons_eq_append_iff.mp hmore with ⟨rfl, hcons⟩ | ⟨more, rfl, -⟩
    · exact ⟨by simp, (List.cons.inj hcons).2⟩
    · exact absurd (by simp) h.2

/-- A text that is not malformed spells the overload that is read from it. -/
theorem parse_cases (text : String) :
    (IsMalformed text ∧ parse text = .error (.badExclusion text)) ∨
      (¬ IsMalformed text ∧ ∃ o, parse text = .ok o ∧ ∀ o', Spells text o' ↔ o' = o) := by
  by_cases hsign : '#' ∈ text.toList
  · obtain ⟨before, behind, h⟩ := exists_hasSides hsign
    have hmalformed : IsMalformed text ↔
        Text.strip (String.ofList before) = "" ∨ Text.strip (String.ofList behind) = "" := by
      rw [Text.strip_eq_empty_iff, Text.strip_eq_empty_iff, String.toList_ofList, String.toList_ofList]
      constructor
      · rintro (hnone | ⟨before', behind', h', hblank⟩)
        · exact absurd hsign hnone
        · obtain ⟨rfl, rfl⟩ := h.unique h'
          exact hblank
      · exact fun hblank => .inr ⟨before, behind, h, hblank⟩
    rw [hmalformed, h.parse_eq]
    by_cases hblank :
        Text.strip (String.ofList before) = "" ∨ Text.strip (String.ofList behind) = ""
    · exact .inl ⟨hblank, if_pos hblank⟩
    · refine .inr ⟨hblank, _, if_neg hblank, fun o' => ?_⟩
      constructor
      · rintro ⟨before', behind', h', rfl⟩
        obtain ⟨rfl, rfl⟩ := h.unique h'
        rfl
      · exact fun heq => ⟨before, behind, h, heq⟩
  · exact .inl ⟨.inl hsign, parse_of_no_sign hsign⟩

end Overload

/-! ## 2. Command lines -/

/-- Pieces between occurrences of a character are the pieces where a list is split at it. -/
theorem splitAtChar_eq_splitOn (c : Char) (s : List Char) : splitAtChar c s = s.splitOn c := by
  induction s with
  | nil => rw [splitAtChar, List.splitOn_nil]
  | cons d s ih =>
    rw [splitAtChar, ih]
    simp only [List.splitOn_eq_splitOnP, List.splitOnP_cons_eq_if_modifyHead, beq_iff_eq]
    split_ifs
    · rfl
    · cases hs : s.splitOnP (· == c) with
      | nil => exact absurd hs (List.splitOnP_ne_nil _ _)
      | cons piece pieces => rfl

namespace CommandLine

/-- Every option that is laid over the settings of a document has the value that it needs. -/
structure Arguments.IsGiven (a : Arguments) : Prop where
  classpath : .nothing ∉ a.classpath
  excludedMethods : .nothing ∉ a.excludedMethods
  jobs : a.jobs ≠ some .nothing

/-- The texts that are given for an option. -/
def givenTexts (given : List (Given String)) : List String := given.filterMap Given.value?

theorem mapM_textOf {given : List (Given String)} (h : .nothing ∉ given) :
    given.mapM textOf = .ok (givenTexts given) := by
  induction given with
  | nil => rfl
  | cons g given ih =>
    rw [List.mem_cons, not_or] at h
    cases g with
    | nothing => exact absurd rfl h.1
    | value text =>
      rw [List.mapM_cons, ih h.2]
      rfl

/-- Overloads are added to method exclusions unless one of the texts is malformed. -/
theorem withOverloads_cases {given : List (Given String)} (h : .nothing ∉ given)
    (x : MethodExclusions) :
    ((∃ text ∈ givenTexts given, Overload.IsMalformed text) ∧
      ∃ text, withOverloads x given = .error (.badExclusion text)) ∨
    ((∀ text ∈ givenTexts given, ¬ Overload.IsMalformed text) ∧
      ∃ x', withOverloads x given = .ok x' ∧ ∀ className s, s ∈ x'.signaturesOf className ↔
        s ∈ x.signaturesOf className ∨
          ∃ text ∈ givenTexts given, Overload.Spells text ⟨className, s⟩) := by
  induction given generalizing x with
  | nil => exact .inr ⟨by simp [givenTexts], x, rfl, by simp [givenTexts]⟩
  | cons g given ih =>
    rw [List.mem_cons, not_or] at h
    cases g with
    | nothing => exact absurd rfl h.1
    | value text =>
      have htexts : givenTexts (.value text :: given) = text :: givenTexts given := rfl
      rw [htexts, withOverloads]
      rcases Overload.parse_cases text with ⟨hbad, herror⟩ | ⟨hgood, o, hok, hspells⟩
      · refine .inl ⟨⟨text, List.mem_cons_self, hbad⟩, text, ?_⟩
        simp [textOf, herror, bind, Except.bind]
      · have hstep : (do let o ← Overload.parse (← textOf (.value text))
                         withOverloads (x.add o.className [o.signature]) given) =
            withOverloads (x.add o.className [o.signature]) given := by
          simp [textOf, hok, bind, Except.bind]
        rw [hstep]
        rcases ih h.2 (x.add o.className [o.signature]) with
          ⟨⟨text', ht, hbad⟩, herror⟩ | ⟨hall, x', hx, hmem⟩
        · exact .inl ⟨⟨text', List.mem_cons_of_mem _ ht, hbad⟩, herror⟩
        · refine .inr ⟨List.forall_mem_cons.mpr ⟨hgood, hall⟩, x', hx, fun className s => ?_⟩
          have ho : (⟨className, s⟩ : Overload) = o ↔ o.className = className ∧ s = o.signature := by
            rw [Overload.mk.injEq, @eq_comm _ className]
          rw [hmem, MethodExclusions.mem_signaturesOf_add, List.exists_mem_cons_iff, hspells, ho, or_assoc,
            List.mem_singleton]

/-- The paths that a text names for the class path: its pieces between colons, without the
empty ones. -/
def pathsOf (text : String) : List Path :=
  ((text.toList.splitOn ':').filter (· ≠ [])).map fun piece => Path.ofString (String.ofList piece)

theorem classpathEntries_eq (text : String) : classpathEntries text = pathsOf text := by
  rw [classpathEntries, splitAtChar_eq_splitOn, pathsOf, List.filter_map, List.map_map]
  refine congrArg (List.map _) (List.filter_congr fun piece _ => ?_)
  rw [Function.comp_apply, bne, Bool.eq_iff_iff, Bool.not_eq_true', beq_eq_false_iff_ne, decide_eq_true_eq,
    ne_eq, ne_eq, ← String.toList_inj, String.toList_ofList]
  rfl

theorem jobsOr_cases {usual : Nat} (hu : 1 ≤ usual) {jobs : Option (Given Int)}
    (h : jobs ≠ some .nothing) :
    ((∃ n, jobs = some (.value n) ∧ n < 1) ∧ jobsOr usual jobs = .error .badJobsOption) ∨
      ((¬ ∃ n, jobs = some (.value n) ∧ n < 1) ∧ ∃ count, jobsOr usual jobs = .ok count ∧ 1 ≤ count) := by
  match jobs with
  | none => exact .inr ⟨by simp, usual, rfl, hu⟩
  | some .nothing => exact absurd rfl h
  | some (.value n) =>
    by_cases hn : n < 1
    · exact .inl ⟨⟨n, rfl, hn⟩, if_pos hn⟩
    · refine .inr ⟨by simpa using hn, n.toNat, if_neg hn, ?_⟩
      omega

end CommandLine

namespace Settings

/-- The settings file that a path means is there, and its text says a value to a reader. -/
structure IsReadAs (read : Yaml.Reader) (d : Disk) (h : Host) (p : Path) (file : Path)
    (v : Yaml.Value) : Prop where
  path : ∃ q, p.expanded? h.personal = some q ∧ file = filePath d h.home q
  content : ∃ bytes s, d.read h.home file = .ok bytes ∧ String.fromUTF8? bytes = some s ∧
    readText read file.name (withLineFeeds s.toList) = .ok v

/-- The settings that the value of a document gives, seen from a folder. -/
theorem load_of_isReadAs {read : Yaml.Reader} {d : Disk} {h : Host} {p file : Path} {v : Yaml.Value}
    (hs : IsReadAs read d h p file v) :
    (v.IsTable ∧ load read d h p = ofValue file.parent (.mapping v.entries)) ∨
      (¬ v.IsTable ∧ load read d h p = .error (.notMapping file.name)) := by
  obtain ⟨⟨q, hq, hfile⟩, bytes, s, hread, htext, hv⟩ := hs
  have hload : load read d h p = ofText read file.parent file.name (withLineFeeds s.toList) := by
    rw [load, hq]
    simp only [loadFrom, ← hfile, hread, htext]
  rw [hload, ofText, hv]
  cases v with
  | nothing => exact .inl ⟨.inl rfl, rfl⟩
  | mapping entries => exact .inl ⟨.inr ⟨entries, rfl⟩, rfl⟩
  | _ => exact .inr ⟨by simp [Yaml.Value.IsTable], rfl⟩

theorem jobsOf_cases (v : Yaml.Value) :
    ((∃ n, integer? v = some n ∧ n < 1) ∧ jobsOf v = .error .badJobs) ∨
      ((¬ ∃ n, integer? v = some n ∧ n < 1) ∧ ∃ count, jobsOf v = .ok count ∧ 1 ≤ count) := by
  rw [jobsOf]
  cases hn : integer? v with
  | none => exact .inr ⟨by simp, 1, rfl, Nat.le_refl 1⟩
  | some n =>
    by_cases hlt : n < 1
    · exact .inl ⟨⟨n, rfl, hlt⟩, if_pos hlt⟩
    · refine .inr ⟨by simpa using hlt, n.toNat, if_neg hlt, ?_⟩
      omega

/-- A mapping and nothing have the entries of the mapping that they count as. -/
theorem entry_mapping_entries {v : Yaml.Value} (h : v.IsTable) (key : String) :
    entry (.mapping v.entries) key = entry v key := by
  rcases h with rfl | ⟨entries, rfl⟩ <;> rfl

theorem isWritable_mapping_entries {v : Yaml.Value} (h : v.IsTable) (hv : v.IsWritable) :
    Yaml.Value.IsWritable (.mapping v.entries) := by
  rcases h with rfl | ⟨entries, rfl⟩
  · simp [Yaml.Value.entries]
  · exact hv

end Settings

/-! ## 3. Documents and command lines -/

namespace CommandLine

open Settings

/-- Why the settings of a document and a command line are refused. -/
inductive IsRefused (v : Yaml.Value) (a : Arguments) : Prop where
  | document (h : ¬ v.IsTable)
  | jobs {n : Int} (h : integer? (entry v "jobs") = some n) (hn : n < 1)
  | exclusions (h : ¬ (entry v "exclude_methods").IsTable)
  | jobsOption {n : Int} (h : a.jobs = some (.value n)) (hn : n < 1)
  | overload {text : String} (h : text ∈ givenTexts a.excludedMethods)
      (hbad : Overload.IsMalformed text)

/-- What the settings of a document and a command line are, where they are not refused. -/
structure IsEffective (v : Yaml.Value) (a : Arguments) (root : Path) (s : Settings) : Prop where
  jobs : 1 ≤ s.jobs
  classpath : s.classpath =
    (entry v "classpath").listed.map (fun e => root.join (Path.ofString e)) ++
      (givenTexts a.classpath).flatMap pathsOf
  methods : ∀ className signature, signature ∈ s.excludedMethods.signaturesOf className ↔
    (∃ e ∈ (entry v "exclude_methods").entries,
      keyText e.1 = .ok className ∧ signature ∈ e.2.listed) ∨
    ∃ text ∈ givenTexts a.excludedMethods, Overload.Spells text ⟨className, signature⟩

section

variable {read : Yaml.Reader} {d : Disk} {h : Host} {a : Arguments} {file : Path} {v : Yaml.Value}
  {config : String}

/-- What a document gives before the command line is laid over it. -/
theorem load_cases (hs : IsReadAs read d h (Path.ofString config) file v) (hv : v.IsWritable) :
    ((∃ why, load read d h (Path.ofString config) = .error why ∧ why.isReported = true) ∧
      ∀ a, IsRefused v a) ∨
    ∃ s, load read d h (Path.ofString config) = .ok s ∧ v.IsTable ∧
      (¬ ∃ n, integer? (entry v "jobs") = some n ∧ n < 1) ∧ (entry v "exclude_methods").IsTable ∧
      1 ≤ s.jobs ∧
      s.classpath = (entry v "classpath").listed.map (fun e => file.parent.join (Path.ofString e)) ∧
      ∀ className signature, signature ∈ s.excludedMethods.signaturesOf className ↔
        ∃ e ∈ (entry v "exclude_methods").entries,
          keyText e.1 = .ok className ∧ signature ∈ e.2.listed := by
  rcases load_of_isReadAs hs with ⟨htable, hload⟩ | ⟨hno, hload⟩
  · have hwritable := isWritable_mapping_entries htable hv
    obtain ⟨s, hclasspath, hvalue⟩ := exists_ofValue_eq hwritable file.parent
    simp only [entry_mapping_entries htable] at hclasspath hvalue
    rw [hload, hvalue]
    rcases jobsOf_cases (entry v "jobs") with ⟨⟨n, hn, hlt⟩, hjobs⟩ | ⟨hgood, count, hjobs, hcount⟩
    · exact .inl ⟨⟨.badJobs, by rw [hjobs]; rfl, rfl⟩, fun a => .jobs hn hlt⟩
    rcases methodExclusions_cases (isWritable_entry hv "exclude_methods") with
      ⟨hentries, x, hx, hmem⟩ | ⟨hno, hx⟩
    · exact .inr ⟨{ s with jobs := count, excludedMethods := x }, by rw [hjobs, hx]; rfl, htable, hgood,
        hentries, hcount, hclasspath, hmem⟩
    · exact .inl ⟨⟨.badExclusions, by rw [hjobs, hx]; rfl, rfl⟩, fun a => .exclusions hno⟩
  · exact .inl ⟨⟨_, hload, rfl⟩, fun a => .document hno⟩

theorem settings_eq (hc : a.config = .value config) :
    a.settings read d h = load read d h (Path.ofString config) >>= a.applyTo := by
  rw [Arguments.settings, hc]
  rfl

/-- Whatever value a reader finds in a document, settings are refused for the listed causes, and
this is reported. Otherwise a document and a command line make settings: with one job at least,
with the class path of both in order, and with the method exclusions of both. -/
theorem settings_of_document (hs : IsReadAs read d h (Path.ofString config) file v)
    (hc : a.config = .value config) (hv : v.IsWritable) (ha : a.IsGiven) :
    (IsRefused v a → ∃ why, a.settings read d h = .error why ∧ why.isReported = true) ∧
      (¬ IsRefused v a → ∃ s, a.settings read d h = .ok s ∧ IsEffective v a file.parent s) := by
  rw [settings_eq hc]
  rcases load_cases hs hv with ⟨⟨why, hload, hwhy⟩, hrefused⟩ |
    ⟨s, hload, htable, hjobs, hentries, hcount, hclasspath, hmethods⟩
  · rw [hload]
    exact ⟨fun _ => ⟨why, rfl, hwhy⟩, fun hnot => absurd (hrefused a) hnot⟩
  have happly : load read d h (Path.ofString config) >>= a.applyTo = a.applyTo s := by rw [hload]; rfl
  rw [happly, Arguments.applyTo, mapM_textOf ha.classpath]
  rcases withOverloads_cases ha.excludedMethods s.excludedMethods with
    ⟨⟨text, ht, hbad⟩, text', herror⟩ | ⟨hgood, x, hx, hmem⟩
  · rw [herror]
    exact ⟨fun _ => ⟨_, rfl, rfl⟩, fun hnot => absurd (.overload ht hbad) hnot⟩
  rw [hx]
  rcases jobsOr_cases hcount ha.jobs with ⟨⟨n, hn, hlt⟩, herror⟩ | ⟨hgoodJobs, count, hok, hone⟩
  · rw [herror]
    exact ⟨fun _ => ⟨_, rfl, rfl⟩, fun hnot => absurd (.jobsOption hn hlt) hnot⟩
  rw [hok]
  refine ⟨fun hrefused => ?_, fun _ => ⟨_, rfl, hone, ?_, fun className signature => ?_⟩⟩
  · cases hrefused with
    | document hno => exact absurd htable hno
    | jobs hn hlt => exact absurd ⟨_, hn, hlt⟩ hjobs
    | exclusions hno => exact absurd hentries hno
    | jobsOption hn hlt => exact absurd ⟨_, hn, hlt⟩ hgoodJobs
    | overload ht hbad => exact absurd hbad (hgood _ ht)
  · simp only [hclasspath, funext classpathEntries_eq]
  · rw [hmem, hmethods]

end

/-! ## 4. A small document

Two keys of the document have the text of one class, and the command line names it too. -/

deriving instance DecidableEq for Arguments

namespace SmallDocument

def text : String :=
  "jobs: 4\nclasspath: lib.jar\nexclude_methods:\n  1: [f()V, 7]\n  '1': g()V\n"

def disk : Disk := ⟨[(["apiscan.yml"], .file text.toUTF8)]⟩

def host : Host := .willing [] []

def file : Path := ⟨.root, ["apiscan.yml"]⟩

def document : Yaml.Value := .mapping [
  (.text "jobs", .integer 4), (.text "classpath", .text "lib.jar"),
  (.text "exclude_methods", .mapping [
    (.integer 1, .list [.text "f()V", .integer 7]), (.text "1", .text "g()V")])]

/-- Whether a value is the document. -/
def isDocument : Yaml.Value → Bool
  | .mapping [(.text "jobs", .integer 4), (.text "classpath", .text "lib.jar"),
      (.text "exclude_methods", .mapping [
        (.integer 1, .list [.text "f()V", .integer 7]), (.text "1", .text "g()V")])] => true
  | _ => false

theorem eq_document {v : Yaml.Value} (h : isDocument v = true) : v = document := by
  unfold isDocument at h
  split at h
  · rfl
  · cases h

theorem readText_text : readText reader file.name (withLineFeeds text.toList) = .ok document := by
  have h : (readText reader file.name (withLineFeeds text.toList)).toOption.any isDocument = true := by
    decide +kernel
  rw [Option.any_eq_true] at h
  obtain ⟨v, hv, hdocument⟩ := h
  rw [toOption_eq_some.mp hv, eq_document hdocument]

theorem isReadAs_document : IsReadAs reader disk host (Path.ofString ".") file document where
  path := ⟨⟨.here, []⟩, by decide +kernel, by decide +kernel⟩
  content := ⟨text.toUTF8, text, rfl, rfl, readText_text⟩

theorem isWritable_document : document.IsWritable := by
  have hone : (Number.digits 1).length ≤ Number.maxDigits := by decide
  have hfour : (Number.digits 4).length ≤ Number.maxDigits := by decide
  have hseven : (Number.digits 7).length ≤ Number.maxDigits := by decide
  simp [document, hone, hfour, hseven]

/-- Its values are no cause to refuse the settings. -/
theorem isRefused_document {a : Arguments} (h : IsRefused document a) :
    (∃ n, a.jobs = some (.value n) ∧ n < 1) ∨
      ∃ text ∈ givenTexts a.excludedMethods, Overload.IsMalformed text := by
  cases h with
  | document h => exact absurd (.inr ⟨_, rfl⟩) h
  | jobs h hn =>
    have hfour : integer? (entry document "jobs") = some 4 := by decide +kernel
    rw [hfour, Option.some.injEq] at h
    omega
  | exclusions h => exact absurd (.inr ⟨_, rfl⟩) h
  | jobsOption h hn => exact .inl ⟨_, h, hn⟩
  | overload ht hbad => exact .inr ⟨_, ht, hbad⟩

/-- A command line with an overload of the same class. -/
def arguments : Arguments :=
  { Arguments.empty with
    classpath := [.value "x.jar::y.jar"], excludedMethods := [.value " 1 # h()V"],
    jobs := some (.value 2) }

theorem parse_arguments :
    parse ["scan", "--classpath", "x.jar::y.jar", "--exclude-method", " 1 # h()V", "-j2"] =
      .ok arguments :=
  toOption_eq_some.mp (by decide +kernel)

theorem config_arguments : arguments.config = .value "." := rfl

theorem isGiven_arguments : arguments.IsGiven := by
  constructor <;> simp [arguments, Arguments.empty]

theorem not_isRefused_arguments : ¬ IsRefused document arguments := by
  intro h
  rcases isRefused_document h with ⟨n, hn, hlt⟩ | ⟨text, htext, hbad⟩
  · have htwo : arguments.jobs = some (.value 2) := rfl
    rw [htwo, Option.some.injEq, Given.value.injEq] at hn
    omega
  · have honly : givenTexts arguments.excludedMethods = [" 1 # h()V"] := rfl
    rw [honly, List.mem_singleton] at htext
    subst htext
    rcases Overload.parse_cases " 1 # h()V" with ⟨-, herror⟩ | ⟨hgood, -⟩
    · have hok : (Overload.parse " 1 # h()V").toOption = some ⟨"1", "h()V"⟩ := by decide +kernel
      rw [herror] at hok
      cases hok
    · exact hgood hbad

/-- A count that is given as nothing. -/
def absent : Arguments := { Arguments.empty with jobs := some .nothing }

theorem config_absent : absent.config = .value "." := rfl

theorem parse_absent : parse ["scan", "--jobs=--"] = .ok absent := toOption_eq_some.mp (by decide +kernel)

theorem not_isRefused_absent : ¬ IsRefused document absent := by
  intro h
  rcases isRefused_document h with ⟨n, hn, -⟩ | ⟨text, htext, -⟩
  · cases hn
  · cases htext

end SmallDocument

open SmallDocument in
/-- Both keys of the class and the command line count. -/
theorem settings_of_document_small :
    parse ["scan", "--classpath", "x.jar::y.jar", "--exclude-method", " 1 # h()V", "-j2"] =
        .ok arguments ∧
      IsReadAs reader disk host (Path.ofString ".") file document ∧ document.IsWritable ∧
      arguments.IsGiven ∧
      ∃ s, arguments.settings reader disk host = .ok s ∧ IsEffective document arguments file.parent s :=
  ⟨parse_arguments, isReadAs_document, isWritable_document, isGiven_arguments,
    (settings_of_document isReadAs_document config_arguments isWritable_document isGiven_arguments).2
      not_isRefused_arguments⟩

open SmallDocument in
/-- A count that is given as nothing is no cause to refuse the settings, and it ends in a fault
that is not reported. -/
theorem settings_absent_count :
    parse ["scan", "--jobs=--"] = .ok absent ∧
      IsReadAs reader disk host (Path.ofString ".") file document ∧ document.IsWritable ∧
      ¬ IsRefused document absent ∧ absent.settings reader disk host = .error .absentCount ∧
      SettingsFault.absentCount.isReported = false := by
  refine ⟨parse_absent, isReadAs_document, isWritable_document, not_isRefused_absent, ?_, rfl⟩
  obtain ⟨s, hload, -⟩ := (load_cases isReadAs_document isWritable_document).resolve_left
    fun h => not_isRefused_absent (h.2 absent)
  rw [settings_eq config_absent, hload]
  rfl

end CommandLine

end ApiSurface
