/-
ApiSurface.Proofs.Snapshot.Outline — a text with the lines of each method apart.

An outline is a block before its lines are written one after another: it keeps the lines
of each method under the name and the descriptor of the method. Outlines and texts come
into being together (`render_eq_ok_iff`), so a statement on outlines says which lines of a
text belong to which method.
-/
import ApiSurface.Proofs.Lists
import ApiSurface.Proofs.Outcome
import ApiSurface.Snapshot.Block

namespace ApiSurface.Snapshot

/-- The lines of a method: those of its annotations, and its own. -/
structure MethodLines where
  name : String
  descriptor : String
  lines : List String
deriving DecidableEq

/-- The lines of a class, those of each method apart. -/
structure Outline where
  /-- The name of the class. -/
  name : String
  /-- The lines above those of methods. -/
  front : List String
  methods : List MethodLines
  /-- The lines below those of methods. -/
  back : List String
deriving DecidableEq

/-- The lines of an outline, one after another. -/
def Outline.lines (o : Outline) : List String :=
  o.front ++ o.methods.flatMap (·.lines) ++ o.back

/-- The text of some outlines. -/
def ofOutlines (os : List Outline) : String := ofLines (os.flatMap Outline.lines)

/-- The lines of a method of a class. -/
def methodLines (v : View) (m : MethodRecord) : Except ClassFault MethodLines :=
  (methodLine m).outcome.map fun line => ⟨m.name, m.descriptor, memberLines v m.toMember line⟩

/-- The lines of a field of a class. -/
def fieldLines (v : View) (f : FieldRecord) : Except ClassFault (List String) :=
  (fieldLine f).outcome.map (memberLines v f.toMember)

/-- The outline of a class. -/
def outline (v : View) (r : ClassRecord) : Except ClassFault Outline := do
  let methods ← (v.publicMethods r).mapM (methodLines v)
  let fields ← (v.publicFields r).mapM (fieldLines v)
  return {
    name := r.name
    front := annotationLines "" (v.classAnnotations r).visible ++ [header r]
    methods := methods
    back := fields.flatten ++ [terminator] }

/-! ## Outlines and texts -/

/-- Collecting lines gives those of all elements, if each of them has lines. -/
theorem outcome_collect {α β γ : Type} {f : α → Report ClassFault (List β)}
    {g : α → Except ClassFault γ} (lines : γ → List β)
    (h : ∀ a, (f a).outcome = (g a).map lines) (l : List α) :
    (collect f l).outcome = (l.mapM g).map (·.flatMap lines) := by
  induction l with
  | nil => rfl
  | cons a rest ih =>
    simp only [collect, Report.outcome_bind, Report.outcome_pure, List.mapM_cons, h, ih]
    cases g a with
    | error why => rfl
    | ok c => cases rest.mapM g <;> rfl

variable {v : View}

/-- A block has the lines of the outline. -/
theorem outcome_block (r : ClassRecord) : (block v r).outcome = (outline v r).map Outline.lines := by
  have hmethods := outcome_collect (f := fun m => return memberLines v m.toMember (← methodLine m))
    (g := methodLines v) (·.lines) (fun m => by
      rw [methodLines, Report.outcome_bind]
      cases (methodLine m).outcome <;> rfl) (v.publicMethods r)
  have hfields := outcome_collect (f := fun f => return memberLines v f.toMember (← fieldLine f))
    (g := fieldLines v) id (fun f => by
      rw [fieldLines, Report.outcome_bind]
      cases (fieldLine f).outcome <;> rfl) (v.publicFields r)
  simp only [block, outline, Report.outcome_bind, Report.outcome_pure, hmethods, hfields]
  cases (v.publicMethods r).mapM (methodLines v) with
  | error why => rfl
  | ok methods =>
    cases (v.publicFields r).mapM (fieldLines v) with
    | error why => rfl
    | ok fields => simp [Except.map, bind, Except.bind, pure, Except.pure, Outline.lines]

/-- The text of classes is that of their outlines. -/
theorem outcome_render_outlines (classes : List ClassRecord) :
    (render v classes).outcome = (classes.mapM (outline v)).map ofOutlines := by
  have hcollect := outcome_collect (f := block v) (g := outline v) Outline.lines
    outcome_block classes
  rw [render, Report.outcome_bind, hcollect]
  cases classes.mapM (outline v) <;> rfl

/-- Classes have a text exactly if they have outlines, and it is the text of these. -/
theorem render_eq_ok_iff {classes : List ClassRecord} {text : String} :
    (render v classes).outcome = .ok text ↔
      ∃ os, classes.mapM (outline v) = .ok os ∧ text = ofOutlines os := by
  rw [outcome_render_outlines, map_eq_ok]

/-- The outlines of classes are under the names of the classes. -/
theorem map_name_of_outlines {classes : List ClassRecord} {os : List Outline}
    (h : classes.mapM (outline v) = .ok os) : os.map (·.name) = classes.map (·.name) := by
  have hos := mapM_eq_ok.mp h
  clear h
  induction hos with
  | nil => rfl
  | cons ho _ ih =>
    obtain ⟨_, -, ho⟩ := bind_eq_ok.mp ho
    obtain ⟨_, -, ho⟩ := bind_eq_ok.mp ho
    cases ho
    simp [ih]

end ApiSurface.Snapshot
