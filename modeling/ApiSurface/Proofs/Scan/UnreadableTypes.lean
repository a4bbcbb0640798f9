/-
ApiSurface.Proofs.Scan.UnreadableTypes — which members can fail a text.

A member says its types twice: by its descriptor, and by its generic signature if it has one.
The signature is read first, but only the descriptor can fail a text: an empty signature, or one
that cannot be read, leaves no trace (`outcome_typesOf_of_useless`). So a text fails exactly if a
public member has a malformed descriptor and no signature to take its place, where constants
have literals; a scan reports that as a malformed descriptor in its target.

Members that are not public are left out before any type is read, so they cannot fail a text
and do not show in it (`outline_published`).
-/
import ApiSurface.Proofs.Scan.Blocks
import ApiSurface.Proofs.Snapshot.Outline
import ApiSurface.Proofs.Snapshot.Overloads
import ApiSurface.Proofs.Visibility.Alike

namespace ApiSurface

/-! ## 1. Types of a member -/

namespace Snapshot

variable {α : Type} {read : String → Except Malformed α} {m : Member}

/-- The signature of a member is absent or empty, or it cannot be read. -/
def HasUselessSignature (read : String → Except Malformed α) (m : Member) : Prop :=
  ∀ signature, m.signature = some signature → signature ≠ "" →
    ∃ why, read signature = .error why

/-- The types of a member cannot be read: its descriptor is malformed, and it has no signature
to take its place. -/
def IsUnreadable (read : String → Except Malformed α) (m : Member) : Prop :=
  (∃ why, read m.descriptor = .error why) ∧ HasUselessSignature read m

/-- A signature that is of no use leaves the types to the descriptor. -/
theorem outcome_typesOf_of_useless (h : HasUselessSignature read m) :
    (typesOf m read).outcome = (read m.descriptor).mapError .malformed := by
  unfold typesOf
  split
  · rfl
  · next signature hsignature =>
    obtain ⟨hsignature, hne⟩ := Option.filter_eq_some_iff.mp hsignature
    obtain ⟨why, hwhy⟩ := h signature hsignature (by simpa using hne)
    rw [hwhy]
    rfl

/-- A signature that can be read gives the types, whatever the descriptor is. -/
theorem outcome_typesOf_of_useful (h : ¬ HasUselessSignature read m) :
    ∃ types, (typesOf m read).outcome = .ok types := by
  unfold HasUselessSignature at h
  push Not at h
  obtain ⟨signature, hsignature, hne, hread⟩ := h
  have hfilter : m.signature.filter (· != "") = some signature :=
    Option.filter_eq_some_iff.mpr ⟨hsignature, by simpa using hne⟩
  cases htypes : read signature with
  | error why => exact absurd htypes (hread why)
  | ok types =>
    refine ⟨types, ?_⟩
    rw [typesOf]
    simp only [hfilter, htypes]
    rfl

theorem typesOf_eq_error {why : ClassFault} (h : (typesOf m read).outcome = .error why) :
    IsUnreadable read m ∧ ∃ cause, why = .malformed cause := by
  by_cases huseless : HasUselessSignature read m
  · rw [outcome_typesOf_of_useless huseless] at h
    cases hread : read m.descriptor with
    | error cause =>
      rw [hread] at h
      cases h
      exact ⟨⟨⟨cause, hread⟩, huseless⟩, cause, rfl⟩
    | ok types =>
      rw [hread] at h
      cases h
  · obtain ⟨types, htypes⟩ := outcome_typesOf_of_useful huseless
    rw [htypes] at h
    cases h

/-- The types of a member are read unless it is unreadable. -/
theorem exists_typesOf_iff :
    (∃ types, (typesOf m read).outcome = .ok types) ↔ ¬ IsUnreadable read m := by
  constructor
  · rintro ⟨types, htypes⟩ ⟨⟨why, hwhy⟩, huseless⟩
    rw [outcome_typesOf_of_useless huseless, hwhy] at htypes
    cases htypes
  · intro hno
    cases h : (typesOf m read).outcome with
    | ok types => exact ⟨types, rfl⟩
    | error why => exact absurd (typesOf_eq_error h).1 hno

end Snapshot

/-! ## 2. Lines -/

/-- How the types of a method are read. -/
def MethodRecord.readTypes (m : MethodRecord) (text : String) :
    Except Malformed Descriptor.MethodText :=
  Descriptor.renderedMethod text (Flags.has m.modifiers Flags.isVarargs)

/-- The types of a method cannot be read. -/
def MethodRecord.IsUnreadable (m : MethodRecord) : Prop :=
  Snapshot.IsUnreadable m.readTypes m.toMember

/-- The type of a field cannot be read. -/
def FieldRecord.IsUnreadable (f : FieldRecord) : Prop :=
  Snapshot.IsUnreadable Descriptor.rendered f.toMember

/-- The constant of a field has a literal, if the field has a constant. -/
def FieldRecord.HasLiteral (f : FieldRecord) : Prop :=
  ∀ value, f.constant = some value → ∃ literal, Literal.constant f.descriptor value = .ok literal

namespace Snapshot

theorem outcome_methodLine (m : MethodRecord) :
    (methodLine m).outcome = (typesOf m.toMember m.readTypes).outcome.map (lineOf m) := by
  rw [methodLine, Report.outcome_bind]
  rfl

theorem methodLine_eq_error {m : MethodRecord} {why : ClassFault}
    (h : (methodLine m).outcome = .error why) :
    m.IsUnreadable ∧ ∃ cause, why = .malformed cause := by
  rw [outcome_methodLine, map_eq_error] at h
  exact typesOf_eq_error h

/-- A method has a line unless its types cannot be read. -/
theorem exists_methodLine_iff {m : MethodRecord} :
    (∃ line, (methodLine m).outcome = .ok line) ↔ ¬ m.IsUnreadable := by
  rw [outcome_methodLine, MethodRecord.IsUnreadable, ← exists_typesOf_iff]
  simp [map_eq_ok]

theorem fieldLine_eq_error {f : FieldRecord} (hf : f.HasLiteral) {why : ClassFault}
    (h : (fieldLine f).outcome = .error why) :
    f.IsUnreadable ∧ ∃ cause, why = .malformed cause := by
  rw [fieldLine, Report.outcome_bind] at h
  cases htype : (typesOf f.toMember Descriptor.rendered).outcome with
  | error cause =>
    rw [htype] at h
    cases h
    exact typesOf_eq_error htype
  | ok type =>
    rw [htype] at h
    cases hconstant : f.constant with
    | none =>
      simp only [bind, Except.bind, hconstant] at h
      cases h
    | some value =>
      obtain ⟨literal, hliteral⟩ := hf value hconstant
      simp only [bind, Except.bind, hconstant, hliteral] at h
      cases h

/-- A field whose constant has a literal has a line unless its type cannot be read. -/
theorem exists_fieldLine_iff {f : FieldRecord} (hf : f.HasLiteral) :
    (∃ line, (fieldLine f).outcome = .ok line) ↔ ¬ f.IsUnreadable := by
  constructor
  · rintro ⟨line, h⟩
    obtain ⟨type, htype, -⟩ := Report.outcome_bind_eq_ok.mp h
    exact exists_typesOf_iff.mp ⟨type, htype⟩
  · intro hno
    cases h : (fieldLine f).outcome with
    | ok line => exact ⟨line, rfl⟩
    | error why => exact absurd (fieldLine_eq_error hf h).1 hno

end Snapshot

/-! ## 3. Blocks -/

namespace View

variable {v : View} {r : ClassRecord}

theorem mem_publicMethods {m : MethodRecord} :
    m ∈ v.publicMethods r ↔ m ∈ r.methods ∧ v.includesMethod m = true := by
  rw [publicMethods, List.mem_filter, List.mem_mergeSort]

theorem mem_publicFields {f : FieldRecord} :
    f ∈ v.publicFields r ↔ f ∈ r.fields ∧ v.includesField f = true := by
  rw [publicFields, List.mem_filter, List.mem_mergeSort]

/-- A public method or a public field of a class has types that cannot be read. -/
def HasUnreadableMember (v : View) (r : ClassRecord) : Prop :=
  (∃ m ∈ r.methods, v.includesMethod m = true ∧ m.IsUnreadable) ∨
    ∃ f ∈ r.fields, v.includesField f = true ∧ f.IsUnreadable

/-- The constants of the public fields of a class have literals. -/
def HasLiterals (v : View) (r : ClassRecord) : Prop :=
  ∀ f ∈ r.fields, v.includesField f = true → f.HasLiteral

end View

namespace Snapshot

variable {v : View} {r : ClassRecord}

theorem exists_methodLines_iff {m : MethodRecord} :
    (∃ lines, methodLines v m = .ok lines) ↔ ¬ m.IsUnreadable := by
  rw [methodLines, exists_map_eq_ok_iff, exists_methodLine_iff]

theorem exists_fieldLines_iff {f : FieldRecord} (hf : f.HasLiteral) :
    (∃ lines, fieldLines v f = .ok lines) ↔ ¬ f.IsUnreadable := by
  rw [fieldLines, exists_map_eq_ok_iff, exists_fieldLine_iff hf]

/-- A class has lines unless a public member is unreadable. -/
theorem exists_outline_iff (hr : v.HasLiterals r) :
    (∃ o, outline v r = .ok o) ↔ ¬ v.HasUnreadableMember r := by
  constructor
  · rintro ⟨o, ho⟩
    obtain ⟨methods, hmethods, ho⟩ := bind_eq_ok.mp ho
    obtain ⟨fields, hfields, -⟩ := bind_eq_ok.mp ho
    rintro (⟨m, hm, hpublic, hunreadable⟩ | ⟨f, hf, hpublic, hunreadable⟩)
    · have hlines := exists_mapM_eq_ok_iff.mp ⟨methods, hmethods⟩ m
        (View.mem_publicMethods.mpr ⟨hm, hpublic⟩)
      exact exists_methodLines_iff.mp hlines hunreadable
    · have hlines := exists_mapM_eq_ok_iff.mp ⟨fields, hfields⟩ f
        (View.mem_publicFields.mpr ⟨hf, hpublic⟩)
      exact (exists_fieldLines_iff (hr f hf hpublic)).mp hlines hunreadable
  · intro hno
    have hmethods : ∀ m ∈ v.publicMethods r, ∃ lines, methodLines v m = .ok lines := by
      intro m hm
      obtain ⟨hm, hpublic⟩ := View.mem_publicMethods.mp hm
      exact exists_methodLines_iff.mpr fun h => hno (.inl ⟨m, hm, hpublic, h⟩)
    have hfields : ∀ f ∈ v.publicFields r, ∃ lines, fieldLines v f = .ok lines := by
      intro f hf
      obtain ⟨hf, hpublic⟩ := View.mem_publicFields.mp hf
      exact (exists_fieldLines_iff (hr f hf hpublic)).mpr fun h => hno (.inr ⟨f, hf, hpublic, h⟩)
    obtain ⟨methods, hmethods⟩ := exists_mapM_eq_ok_iff.mpr hmethods
    obtain ⟨fields, hfields⟩ := exists_mapM_eq_ok_iff.mpr hfields
    exact ⟨_, bind_eq_ok.mpr ⟨methods, hmethods, bind_eq_ok.mpr ⟨fields, hfields, rfl⟩⟩⟩

/-- Nothing but a malformed type fails the lines of a class. -/
theorem outline_eq_error (hr : v.HasLiterals r) {why : ClassFault}
    (h : outline v r = .error why) : ∃ cause, why = .malformed cause := by
  rcases bind_eq_error.mp h with h | ⟨methods, -, h⟩
  · obtain ⟨_, m, _, -, -, hm⟩ := exists_of_mapM_eq_error h
    exact (methodLine_eq_error (map_eq_error.mp hm)).2
  · rcases bind_eq_error.mp h with h | ⟨fields, -, h⟩
    · obtain ⟨before, f, after, hfields, -, hf⟩ := exists_of_mapM_eq_error h
      have hmem : f ∈ v.publicFields r :=
        hfields ▸ List.mem_append_right before List.mem_cons_self
      obtain ⟨hmem, hpublic⟩ := View.mem_publicFields.mp hmem
      exact (fieldLine_eq_error (hr f hmem hpublic) (map_eq_error.mp hf)).2
    · cases h

/-- Classes have a text unless a public member of one of them is unreadable. -/
theorem exists_render_iff {classes : List ClassRecord} (hclasses : ∀ r ∈ classes, v.HasLiterals r) :
    (∃ text, (render v classes).outcome = .ok text) ↔
      ¬ ∃ r ∈ classes, v.HasUnreadableMember r := by
  rw [outcome_render_outlines, exists_map_eq_ok_iff, exists_mapM_eq_ok_iff]
  push Not
  exact forall₂_congr fun r hr => exists_outline_iff (hclasses r hr)

theorem render_eq_error {classes : List ClassRecord} (hclasses : ∀ r ∈ classes, v.HasLiterals r)
    {why : ClassFault} (h : (render v classes).outcome = .error why) :
    ∃ cause, why = .malformed cause := by
  rw [outcome_render_outlines, map_eq_error] at h
  obtain ⟨before, r, after, hrecords, -, hr⟩ := exists_of_mapM_eq_error h
  have hmem : r ∈ classes := hrecords ▸ List.mem_append_right before List.mem_cons_self
  exact outline_eq_error (hclasses r hmem) hr

end Snapshot

/-! ## 4. What does not show -/

/-- A method without its signature, if that is of no use. -/
def MethodRecord.withUsefulSignature (m : MethodRecord) : MethodRecord :=
  { m with signature := m.signature.filter fun s => s != "" && (m.readTypes s).isOk }

/-- A field without its signature, if that is of no use. -/
def FieldRecord.withUsefulSignature (f : FieldRecord) : FieldRecord :=
  { f with signature := f.signature.filter fun s => s != "" && (Descriptor.rendered s).isOk }

/-- A class without the signatures of members that are of no use. -/
def ClassRecord.withUsefulSignatures (r : ClassRecord) : ClassRecord :=
  { r with
    methods := r.methods.map (·.withUsefulSignature)
    fields := r.fields.map (·.withUsefulSignature) }

namespace View

variable {v : View} {r : ClassRecord}

/-- A class without the members that are not public. -/
def published (v : View) (r : ClassRecord) : ClassRecord :=
  { r with
    methods := r.methods.filter v.includesMethod
    fields := r.fields.filter v.includesField }

/-- The members of a class do not decide about the annotations on it. -/
theorem classAnnotations_with (methods : List MethodRecord) (fields : List FieldRecord) :
    v.classAnnotations { r with methods := methods, fields := fields } = v.classAnnotations r := by
  have hinterfaces : v.known.interfaces { r with methods := methods, fields := fields } =
      v.known.interfaces r := by
    have hkind : { r with methods := methods, fields := fields }.isInterface = r.isInterface := rfl
    unfold Universe.interfaces
    rw [hkind]
    cases r.isInterface <;> rfl
  have hancestors : v.ancestors { r with methods := methods, fields := fields } =
      v.ancestors r := by
    rw [ancestors, hinterfaces]
    rfl
  rw [classAnnotations, effectiveAnnotations, hancestors]
  rfl

theorem publicMethods_withUsefulSignatures (r : ClassRecord) :
    v.publicMethods r.withUsefulSignatures =
      (v.publicMethods r).map (·.withUsefulSignature) := by
  have hpublic : v.includesMethod ∘ (·.withUsefulSignature) = v.includesMethod := rfl
  have hsorted : (r.withUsefulSignatures.methods.mergeSort fun a b =>
      memberLe a.toMember b.toMember) =
        (r.methods.mergeSort fun a b => memberLe a.toMember b.toMember).map (·.withUsefulSignature) :=
    (List.map_mergeSort (f := MethodRecord.withUsefulSignature) fun _ _ _ _ => rfl).symm
  rw [publicMethods, publicMethods, hsorted, List.filter_map, hpublic]

theorem publicFields_withUsefulSignatures (r : ClassRecord) :
    v.publicFields r.withUsefulSignatures =
      (v.publicFields r).map (·.withUsefulSignature) := by
  have hpublic : v.includesField ∘ (·.withUsefulSignature) = v.includesField := rfl
  have hsorted : (r.withUsefulSignatures.fields.mergeSort fun a b =>
      memberLe a.toMember b.toMember) =
        (r.fields.mergeSort fun a b => memberLe a.toMember b.toMember).map (·.withUsefulSignature) :=
    (List.map_mergeSort (f := FieldRecord.withUsefulSignature) fun _ _ _ _ => rfl).symm
  rw [publicFields, publicFields, hsorted, List.filter_map, hpublic]

end View

namespace Snapshot

variable {v : View} {r : ClassRecord}

/-- A class with other members has the same lines, if the public ones have the same lines. -/
theorem outline_with {methods : List MethodRecord} {fields : List FieldRecord}
    (hmethods : (v.publicMethods { r with methods := methods, fields := fields }).mapM
      (methodLines v) = (v.publicMethods r).mapM (methodLines v))
    (hfields : (v.publicFields { r with methods := methods, fields := fields }).mapM
      (fieldLines v) = (v.publicFields r).mapM (fieldLines v)) :
    outline v { r with methods := methods, fields := fields } = outline v r := by
  rw [outline, outline, hmethods, hfields, View.classAnnotations_with]
  rfl

/-- Members that are not public do not show. -/
theorem outline_published (r : ClassRecord) : outline v (v.published r) = outline v r := by
  have hmethods : v.publicMethods (v.published r) = v.publicMethods r := by
    rw [View.publicMethods_eq_mergeSort, View.publicMethods_eq_mergeSort, View.published,
      List.filter_filter]
    simp
  have hfields : v.publicFields (v.published r) = v.publicFields r := by
    rw [View.publicFields_eq_mergeSort, View.publicFields_eq_mergeSort, View.published,
      List.filter_filter]
    simp
  exact outline_with (congrArg _ hmethods) (congrArg _ hfields)

/-- A signature that is of no use does not show in the types of a member. -/
theorem outcome_typesOf_filter {α : Type} (m : Member) (read : String → Except Malformed α) :
    (typesOf { m with signature := m.signature.filter fun s => s != "" && (read s).isOk }
      read).outcome = (typesOf m read).outcome := by
  by_cases huseless : HasUselessSignature read m
  · rw [outcome_typesOf_of_useless huseless, outcome_typesOf_of_useless]
    exact fun s hs => huseless s (Option.filter_eq_some_iff.mp hs).1
  · unfold HasUselessSignature at huseless
    push Not at huseless
    obtain ⟨signature, hsignature, hne, hread⟩ := huseless
    have hok : (read signature).isOk = true := by
      cases htypes : read signature with
      | error why => exact absurd htypes (hread why)
      | ok types => rfl
    rw [hsignature, Option.filter_some, if_pos (by simp [hne, hok]), ← hsignature]

theorem outcome_methodLine_withUsefulSignature (m : MethodRecord) :
    (methodLine m.withUsefulSignature).outcome = (methodLine m).outcome := by
  rw [outcome_methodLine, outcome_methodLine]
  exact congrArg (Except.map (lineOf m)) (outcome_typesOf_filter m.toMember m.readTypes)

theorem outcome_fieldLine_withUsefulSignature (f : FieldRecord) :
    (fieldLine f.withUsefulSignature).outcome = (fieldLine f).outcome := by
  rw [fieldLine, fieldLine, Report.outcome_bind, Report.outcome_bind]
  exact bind_congr_ok (outcome_typesOf_filter f.toMember Descriptor.rendered) fun _ _ => rfl

/-- Signatures that are of no use do not show. -/
theorem outline_withUsefulSignatures (r : ClassRecord) :
    outline v r.withUsefulSignatures = outline v r := by
  have hmethod : ∀ m : MethodRecord, methodLines v m.withUsefulSignature = methodLines v m := by
    intro m
    rw [methodLines, outcome_methodLine_withUsefulSignature]
    rfl
  have hfield : ∀ f : FieldRecord, fieldLines v f.withUsefulSignature = fieldLines v f := by
    intro f
    rw [fieldLines, outcome_fieldLine_withUsefulSignature]
    rfl
  refine outline_with ?_ ?_
  · rw [← ClassRecord.withUsefulSignatures, View.publicMethods_withUsefulSignatures, List.mapM_map]
    simp only [Function.comp_def, hmethod]
  · rw [← ClassRecord.withUsefulSignatures, View.publicFields_withUsefulSignatures, List.mapM_map]
    simp only [Function.comp_def, hfield]

/-- Classes have one text if they have the same outlines. -/
theorem outcome_render_map {f : ClassRecord → ClassRecord}
    (hf : ∀ r, outline v (f r) = outline v r) (classes : List ClassRecord) :
    (render v (classes.map f)).outcome = (render v classes).outcome := by
  rw [outcome_render_outlines, outcome_render_outlines, List.mapM_map]
  simp only [Function.comp_def, hf]

end Snapshot

/-! ## 5. Scans -/

namespace Scan

/-- A scan reports a malformed type as a malformed descriptor in its target. -/
theorem render_eq_badDescriptor {s : Settings} {d : Disk} {home : Place} {h : Handle}
    {known : Universe} {metadata : Option Metadata} {classes : List ClassRecord} {why : Malformed}
    (hk : (Universe.enumerate (h.table d home) s.exclusion h.target).outcome = .ok known)
    (hm : (Metadata.resolve (h.table d home)).outcome = .ok metadata)
    (hc : (view s known metadata).includedClasses.outcome = .ok classes)
    (hfails : (Snapshot.render (view s known metadata) classes).outcome = .error (.malformed why)) :
    (render s d home h).outcome = .error (.badDescriptor h.target why) := by
  rw [Snapshot.outcome_render, map_eq_error] at hfails
  have hblocks : (blocks s (h.table d home) h.target).outcome =
      .error (.badDescriptor h.target why) := by
    rw [blocks, Report.outcome_bind, bind_eq_error]
    refine .inr ⟨known, hk, ?_⟩
    rw [Report.outcome_bind, bind_eq_error]
    refine .inr ⟨metadata, hm, ?_⟩
    rw [Report.outcome_bind, bind_eq_error]
    exact .inr ⟨classes, hc, congrArg (Except.mapError (renderFault h.target)) hfails⟩
  rw [render, outcome_renderTable, hblocks]
  rfl

end Scan

namespace Snapshot

/-- Where the constants of public fields have literals, classes have a text unless a public
member has a malformed descriptor and no signature to take its place. A scan reports such a
member as a malformed descriptor. Signatures that are absent, empty or malformed are as good as
none, and members that are not public do not matter. -/
theorem render_malformed_iff (v : View) (classes : List ClassRecord)
    (hconstants : ∀ r ∈ classes, v.HasLiterals r) :
    ((∃ why, (render v classes).outcome = .error (.malformed why)) ↔
      ∃ r ∈ classes, v.HasUnreadableMember r) ∧
    ((¬ ∃ r ∈ classes, v.HasUnreadableMember r) →
      ∃ text, (render v classes).outcome = .ok text) ∧
    (∀ (s : Settings) (d : Disk) (home : Place) (h : Handle) (known : Universe)
        (metadata : Option Metadata) (why : Malformed),
      (Universe.enumerate (h.table d home) s.exclusion h.target).outcome = .ok known →
      (Metadata.resolve (h.table d home)).outcome = .ok metadata →
      v = Scan.view s known metadata → v.includedClasses.outcome = .ok classes →
      (render v classes).outcome = .error (.malformed why) →
        (Scan.render s d home h).outcome = .error (.badDescriptor h.target why)) ∧
    (render v (classes.map (·.withUsefulSignatures))).outcome = (render v classes).outcome ∧
    ∀ others : List ClassRecord, others.map v.published = classes.map v.published →
      (render v others).outcome = (render v classes).outcome := by
  refine ⟨⟨?_, ?_⟩, (exists_render_iff hconstants).mpr, ?_,
    outcome_render_map outline_withUsefulSignatures classes, ?_⟩
  · rintro ⟨why, hwhy⟩
    by_contra hno
    obtain ⟨text, htext⟩ := (exists_render_iff hconstants).mpr hno
    rw [hwhy] at htext
    cases htext
  · intro hunreadable
    cases h : (render v classes).outcome with
    | ok text => exact absurd hunreadable ((exists_render_iff hconstants).mp ⟨text, h⟩)
    | error why =>
      obtain ⟨cause, rfl⟩ := render_eq_error hconstants h
      exact ⟨cause, rfl⟩
  · rintro s d home h known metadata why hk hm rfl hc hfails
    exact Scan.render_eq_badDescriptor hk hm hc hfails
  · intro others hothers
    rw [← outcome_render_map outline_published others, hothers,
      outcome_render_map outline_published classes]

namespace UnreadableSample

/-- A method with a malformed descriptor. -/
def method (modifiers : Nat) (signature : Option String) : MethodRecord :=
  ⟨"m", "(", modifiers, "p.A", [], signature⟩

/-- A class with some methods and a constant. -/
def record (methods : List MethodRecord) : ClassRecord :=
  { ClassRecord.placeholder "p.A" .ordinary with
    modifiers := Flags.isPublic
    isExternal := false
    methods := methods
    fields := [⟨⟨"N", "I", Flags.isPublic, "p.A", [], none⟩, some (.integer 1)⟩] }

def view : View := ⟨.empty, ⟨[], [], []⟩, .standard, [], none⟩

theorem hasLiterals (methods : List MethodRecord) : view.HasLiterals (record methods) := by
  intro f hf _ value hvalue
  rw [List.mem_singleton.mp hf] at hvalue ⊢
  cases hvalue
  exact ⟨_, rfl⟩

/-- The public method has a signature, and the other one is private. -/
theorem not_hasUnreadableMember :
    ¬ view.HasUnreadableMember (record [method Flags.isPublic (some "()V"),
      method Flags.isPrivate none]) := by
  rintro (⟨m, hm, hpublic, hunreadable⟩ | ⟨f, hf, -, ⟨why, hwhy⟩, -⟩)
  · rcases List.mem_cons.mp hm with rfl | hm
    · have hread : Descriptor.renderedMethod "()V" false = .ok ⟨[], "void"⟩ := by cbv
      obtain ⟨why, hwhy⟩ := hunreadable.2 "()V" rfl (by decide)
      cases hread.symm.trans hwhy
    · have hprivate : view.includesMethod (method Flags.isPrivate none) = false := by cbv
      rw [List.mem_singleton.mp hm, hprivate] at hpublic
      cases hpublic
  · rw [List.mem_singleton.mp hf] at hwhy
    have hread : Descriptor.rendered "I" = .ok "int" := by cbv
    cases hread.symm.trans hwhy

end UnreadableSample

open UnreadableSample in
/-- A malformed descriptor fails the text of a public method that has no signature, but not
that of one with a signature, and not that of a private one. -/
theorem render_malformed_iff_of_sample :
    (∃ why, (render view [record [method Flags.isPublic none]]).outcome =
      .error (.malformed why)) ∧
    ∃ text, (render view [record [method Flags.isPublic (some "()V"),
      method Flags.isPrivate none]]).outcome = .ok text := by
  have hliterals : ∀ methods, ∀ r ∈ [record methods], view.HasLiterals r := fun methods r hr =>
    List.mem_singleton.mp hr ▸ hasLiterals methods
  constructor
  · refine (render_malformed_iff view _ (hliterals _)).1.mpr ⟨_, List.mem_singleton_self _, ?_⟩
    exact .inl ⟨_, List.mem_singleton_self _, by cbv, ⟨_, by cbv⟩, nofun⟩
  · refine (render_malformed_iff view _ (hliterals _)).2.1 ?_
    rintro ⟨r, hr, hunreadable⟩
    rw [List.mem_singleton.mp hr] at hunreadable
    exact not_hasUnreadableMember hunreadable

end Snapshot

end ApiSurface
