/-
ApiSurface.Proofs.Settings.Documents — what settings take from a document.

Every entry of a document is read in a lenient way: a value of an unsuitable kind counts as
absent. `written?` and `listed` say which texts a value gives. Reading them can fail on an
integer only, one of so many digits that it cannot be written; where a document has none of
these (`IsWritable`), the readers give these texts (`texts_eq`).

So settings are refused for a count of jobs or for method exclusions that are no mapping, and
for nothing else (`exists_ofValue_eq`). The exclusions of a class are all that the document
gives under keys with its name as their text (`exists_exclusionsOf`).
-/
import ApiSurface.Proofs.Outcome
import ApiSurface.Proofs.Visibility.Rules
import ApiSurface.Settings.Load

namespace ApiSurface

/-! ## 1. Values -/

namespace Yaml.Value

/-- A value stands in another one, at any depth. -/
inductive Occurs (v : Value) : Value → Prop where
  | here : Occurs v v
  | item {items : List Value} {item : Value} (hitem : item ∈ items) (h : Occurs v item) :
      Occurs v (.list items)
  | key {entries : List (Value × Value)} {entry : Value × Value} (hentry : entry ∈ entries)
      (h : Occurs v entry.1) : Occurs v (.mapping entries)
  | value {entries : List (Value × Value)} {entry : Value × Value} (hentry : entry ∈ entries)
      (h : Occurs v entry.2) : Occurs v (.mapping entries)

/-- No integer in a value has too many digits to be written. -/
def IsWritable (v : Value) : Prop :=
  ∀ n, Occurs (.integer n) v → (Number.digits n.natAbs).length ≤ Number.maxDigits

/-- The text that a scalar gives where a text is asked for. -/
def written? : Value → Option String
  | .text s => some s
  | .boolean b => some (Settings.truthText b)
  | .integer n => some (Number.integerText n)
  | .real x => some x.text
  | _ => none

/-- The texts that a value gives where a list of them is asked for: a text stands for itself,
and of a list the scalars that give a text count. Bytes are a list of numbers. -/
def listed : Value → List String
  | .text s => [s]
  | .list items => items.filterMap written?
  | .bytes b => b.map fun n => Number.integerText n.toNat
  | _ => []

/-- The entries of a mapping. -/
def entries : Value → List (Value × Value)
  | .mapping entries => entries
  | _ => []

/-- A value is a mapping, or nothing, which counts as an empty one. -/
def IsTable (v : Value) : Prop := v = .nothing ∨ ∃ entries, v = .mapping entries

variable {v : Value} {items : List Value} {entries : List (Value × Value)}

@[simp] theorem isWritable_integer_iff {n : Int} :
    IsWritable (.integer n) ↔ (Number.digits n.natAbs).length ≤ Number.maxDigits := by
  refine ⟨fun h => h n .here, fun h m hm => ?_⟩
  cases hm
  exact h

@[simp] theorem isWritable_list_iff : IsWritable (.list items) ↔ ∀ v ∈ items, v.IsWritable := by
  refine ⟨fun h v hv n hn => h n (.item hv hn), fun h n hn => ?_⟩
  cases hn with
  | item hitem hn => exact h _ hitem n hn

@[simp] theorem isWritable_mapping_iff :
    IsWritable (.mapping entries) ↔ ∀ e ∈ entries, e.1.IsWritable ∧ e.2.IsWritable := by
  constructor
  · exact fun h e he => ⟨fun n hn => h n (.key he hn), fun n hn => h n (.value he hn)⟩
  · intro h n hn
    cases hn with
    | key he hn => exact (h _ he).1 n hn
    | value he hn => exact (h _ he).2 n hn

@[simp] theorem isWritable_nothing : IsWritable .nothing := by
  intro n hn
  cases hn

@[simp] theorem isWritable_text (s : String) : IsWritable (.text s) := by
  intro n hn
  cases hn

end Yaml.Value

namespace Settings

variable {v data : Yaml.Value} {entries : List (Yaml.Value × Yaml.Value)}

theorem isWritable_entry (h : data.IsWritable) (key : String) : (entry data key).IsWritable := by
  cases data with
  | mapping entries =>
    rw [entry, Yaml.Value.entry?]
    cases hfind : entries.find? _ with
    | none => exact Yaml.Value.isWritable_nothing
    | some e => exact (Yaml.Value.isWritable_mapping_iff.mp h e (List.mem_of_find?_eq_some hfind)).2
  | _ => exact Yaml.Value.isWritable_nothing

theorem integerText_eq {n : Int} (h : Yaml.Value.IsWritable (.integer n)) :
    integerText n = .ok (Number.integerText n) :=
  if_neg (Nat.not_lt.mpr (Yaml.Value.isWritable_integer_iff.mp h))

theorem text?_eq (h : v.IsWritable) : text? v = .ok v.written? := by
  cases v with
  | integer n => rw [text?, integerText_eq h]; rfl
  | _ => rfl

theorem textsAmong_eq {items : List Yaml.Value} (h : ∀ v ∈ items, v.IsWritable) :
    textsAmong items = .ok (items.filterMap Yaml.Value.written?) := by
  induction items with
  | nil => rfl
  | cons v rest ih =>
    obtain ⟨hv, hrest⟩ := List.forall_mem_cons.mp h
    rw [textsAmong, text?_eq hv, ih hrest]
    cases hw : v.written? <;> simp [hw, bind, Except.bind, pure, Except.pure]

/-- A value that can be written gives its texts. -/
theorem texts_eq (h : v.IsWritable) : texts v = .ok v.listed := by
  cases v with
  | list items => exact textsAmong_eq (Yaml.Value.isWritable_list_iff.mp h)
  | _ => rfl

theorem textEntry?_eq (h : data.IsWritable) (key : String) :
    textEntry? data key = .ok ((entry data key).written?.filter (· != "")) := by
  unfold textEntry?
  rw [text?_eq (isWritable_entry h key)]
  rfl

theorem exists_keyText (h : v.IsWritable) : ∃ text, keyText v = .ok text := by
  cases v with
  | integer n => exact ⟨_, integerText_eq h⟩
  | _ => exact ⟨_, rfl⟩

theorem exists_markersOf (h : data.IsWritable) : ∃ markers, markersOf data = .ok markers := by
  simp only [markersOf, textEntry?_eq h, texts_eq (isWritable_entry h _)]
  exact ⟨_, rfl⟩

end Settings

/-! ## 2. Method exclusions -/

namespace MethodExclusions

/-- The signatures that are left out of a class. -/
def signaturesOf (x : MethodExclusions) (className : String) : List String :=
  (x.lookup className).getD []

@[simp] theorem signaturesOf_nil (className : String) : signaturesOf [] className = [] := rfl

/-- One class gets more signatures, and all others keep theirs. -/
theorem mem_signaturesOf_add {x : MethodExclusions} {c className s : String} {signatures : List String} :
    s ∈ (x.add c signatures).signaturesOf className ↔
      s ∈ x.signaturesOf className ∨ c = className ∧ s ∈ signatures := by
  rw [signaturesOf, add, lookup_putValue]
  by_cases hc : className = c
  · subst hc
    simp [signaturesOf]
  · simp [signaturesOf, hc, Ne.symm hc]

end MethodExclusions

namespace Settings

variable {entries : List (Yaml.Value × Yaml.Value)} {data : Yaml.Value}

/-- The exclusions of a class are what a mapping gives under all keys with its name as text. -/
theorem exists_exclusionsOf (h : Yaml.Value.IsWritable (.mapping entries)) :
    ∃ x, exclusionsOf entries = .ok x ∧ ∀ className s, s ∈ x.signaturesOf className ↔
      ∃ e ∈ entries, keyText e.1 = .ok className ∧ s ∈ e.2.listed := by
  -- Entry by entry, what was found before stays.
  suffices hall : ∀ (rest : List (Yaml.Value × Yaml.Value)) (found : MethodExclusions),
      (∀ e ∈ rest, e.1.IsWritable ∧ e.2.IsWritable) →
      ∃ x, rest.foldlM (fun found e => do
          let signatures ← texts e.2
          if signatures.isEmpty then return found
          else return found.add (← keyText e.1) signatures) found = Except.ok x ∧
        ∀ className s, s ∈ x.signaturesOf className ↔ s ∈ found.signaturesOf className ∨
          ∃ e ∈ rest, keyText e.1 = .ok className ∧ s ∈ e.2.listed by
    obtain ⟨x, hx, hmem⟩ := hall entries [] (Yaml.Value.isWritable_mapping_iff.mp h)
    exact ⟨x, hx, by simpa using hmem⟩
  intro rest
  induction rest with
  | nil => exact fun found _ => ⟨found, rfl, by simp⟩
  | cons e rest ih =>
    intro found hwritable
    obtain ⟨⟨hkey, hvalue⟩, hrest⟩ := List.forall_mem_cons.mp hwritable
    obtain ⟨text, htext⟩ := exists_keyText hkey
    rw [List.foldlM_cons]
    simp only [texts_eq hvalue, htext]
    by_cases hempty : e.2.listed = []
    · obtain ⟨x, hx, hmem⟩ := ih found hrest
      refine ⟨x, by simpa [hempty, bind, Except.bind, pure, Except.pure] using hx, fun className s => ?_⟩
      rw [hmem, List.exists_mem_cons_iff, hempty]
      simp
    · obtain ⟨x, hx, hmem⟩ := ih (found.add text e.2.listed) hrest
      refine ⟨x, by simpa [hempty, bind, Except.bind, pure, Except.pure] using hx, fun className s => ?_⟩
      rw [hmem, List.exists_mem_cons_iff, MethodExclusions.mem_signaturesOf_add, htext, or_assoc,
        Except.ok.injEq]

/-- A mapping or nothing gives method exclusions, and nothing else does. -/
theorem methodExclusions_cases (h : data.IsWritable) :
    (data.IsTable ∧ ∃ x, methodExclusions data = .ok x ∧
      ∀ className s, s ∈ x.signaturesOf className ↔
        ∃ e ∈ data.entries, keyText e.1 = .ok className ∧ s ∈ e.2.listed) ∨
    (¬ data.IsTable ∧ methodExclusions data = .error .badExclusions) := by
  cases data with
  | nothing => exact .inl ⟨.inl rfl, [], rfl, by simp [Yaml.Value.entries]⟩
  | mapping entries => exact .inl ⟨.inr ⟨entries, rfl⟩, exists_exclusionsOf h⟩
  | _ => exact .inr ⟨by simp [Yaml.Value.IsTable], rfl⟩

/-! ## 3. Settings -/

/-- Settings fail to be read from a document for its count of jobs or its method exclusions
only. -/
theorem exists_ofValue_eq (h : data.IsWritable) (root : Path) :
    ∃ s : Settings,
      s.classpath = (entry data "classpath").listed.map (fun e => root.join (Path.ofString e)) ∧
      ofValue root data = do
        let jobs ← jobsOf (entry data "jobs")
        let excludedMethods ← methodExclusions (entry data "exclude_methods")
        return { s with jobs := jobs, excludedMethods := excludedMethods } := by
  obtain ⟨markers, hmarkers⟩ := exists_markersOf (isWritable_entry h "markers")
  refine ⟨{
    root := root
    sources := (entry data "sources").listed.map fun e => root.join (Path.ofString e)
    classpath := (entry data "classpath").listed.map fun e => root.join (Path.ofString e)
    outputFolder := root.join
      ((((entry data "output_dir").written?.filter (· != "")).map Path.ofString).getD usualOutput)
    excludedPackages := (entry data "exclude_packages").listed.map some
    excludedClasses := (entry data "exclude_classes").listed.map some
    excludedMethods := []
    isVerbose := (truth? (entry data "verbose")).getD false
    jobs := 1
    markers := markers }, rfl, ?_⟩
  simp only [ofValue, textEntry?_eq h, texts_eq (isWritable_entry h _), hmarkers]
  cases jobsOf (entry data "jobs") with
  | error why => rfl
  | ok jobs => cases methodExclusions (entry data "exclude_methods") <;> rfl

end Settings

end ApiSurface
