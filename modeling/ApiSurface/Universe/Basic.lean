/-
ApiSurface.Universe.Basic — the classes that a scan has met.

A universe maps names to records in the order in which they were met, and lists
the names that are candidates for publication, each of which has a record. Walks
over the hierarchy take each name at most once: a walk carries the records that
it has not visited, and every step takes one away. So they end on every universe,
also where classes extend each other in a circle.
-/
import ApiSurface.Universe.Record

namespace ApiSurface

/-- The classes that a scan has met. -/
structure Universe where
  records : List (String × ClassRecord)
  /-- The names that are candidates for publication. -/
  candidates : List String
  /-- Every candidate has a record. -/
  recorded : ∀ name ∈ candidates, (records.lookup name).isSome = true

namespace Universe

/-- A universe without classes. -/
def empty : Universe := ⟨[], [], nofun⟩

/-- The record with a name. -/
def record? (u : Universe) (name : String) : Option ClassRecord := u.records.lookup name

/-- Whether a name has a record. -/
def knows (u : Universe) (name : String) : Bool := (u.record? name).isSome

/-- A universe with one more record, which may be a candidate. -/
def add (u : Universe) (name : String) (r : ClassRecord) (isCandidate : Bool) : Universe where
  records := u.records ++ [(name, r)]
  candidates := if isCandidate then u.candidates ++ [name] else u.candidates
  recorded other h := by
    have hmem : other ∈ u.candidates ∨ other = name := by
      cases isCandidate <;> simp_all
    rw [List.lookup_append, Option.isSome_or, Bool.or_eq_true]
    rcases hmem with hmem | rfl
    · exact .inl (u.recorded other hmem)
    · exact .inr (by simp)

/-- The records of the candidates. -/
def classes (u : Universe) : List ClassRecord :=
  u.candidates.attach.map fun name => (u.records.lookup name.1).get (u.recorded name.1 name.2)

theorem mem_classes {u : Universe} {r : ClassRecord} :
    r ∈ u.classes ↔ ∃ name ∈ u.candidates, u.record? name = some r := by
  simp only [classes, List.mem_map, List.mem_attach, true_and, Subtype.exists]
  constructor
  · rintro ⟨name, h, rfl⟩
    exact ⟨name, h, (Option.some_get _).symm⟩
  · rintro ⟨name, h, hr⟩
    exact ⟨name, h, Option.some.inj ((Option.some_get _).trans hr)⟩

/-- The records of the candidates are those that a search for their names finds. -/
theorem classes_eq_filterMap (u : Universe) : u.classes = u.candidates.filterMap u.record? := by
  have hfound : ∀ name : { name // name ∈ u.candidates },
      some ((u.records.lookup name.1).get (u.recorded name.1 name.2)) = u.record? name.1 :=
    fun name => Option.some_get _
  rw [classes, ← List.filterMap_eq_map]
  calc u.candidates.attach.filterMap (some ∘ _)
      = u.candidates.attach.filterMap (u.record? ∘ Subtype.val) :=
        congrArg (List.filterMap · _) (funext hfound)
    _ = (u.candidates.attach.map Subtype.val).filterMap u.record? := List.filterMap_map.symm
    _ = u.candidates.filterMap u.record? := by rw [List.attach_map_subtype_val]

/-- The records of annotation types. -/
def annotations (u : Universe) : List ClassRecord :=
  (u.records.map (·.2)).filter (·.isAnnotationType)

/-- Records without those of one name. -/
def without (name : String) (records : List (String × ClassRecord)) :
    List (String × ClassRecord) :=
  records.filter (·.1 != name)

/-- Taking a name that has a record away leaves fewer records. -/
theorem length_without_lt {name : String} {records : List (String × ClassRecord)}
    {r : ClassRecord} (h : records.lookup name = some r) :
    (without name records).length < records.length := by
  induction records with
  | nil => simp at h
  | cons entry rest ih =>
    obtain ⟨key, value⟩ := entry
    by_cases hk : key = name
    · subst hk
      have := List.length_filter_le (fun e : String × ClassRecord => e.1 != key) rest
      simp only [without, List.filter_cons, bne_self_eq_false, Bool.false_eq_true, ↓reduceIte,
        List.length_cons]
      omega
    · have hk' : (name == key) = false := by simp [Ne.symm hk]
      rw [List.lookup_cons, hk'] at h
      have := ih h
      simp only [without, List.filter_cons, bne_iff_ne.mpr hk, ↓reduceIte, List.length_cons] at *
      omega

/-- The superclasses from a name on, nearest first, through unvisited records. -/
def superclassesFrom (unvisited : List (String × ClassRecord)) :
    Option String → List ClassRecord
  | none => []
  | some name =>
    match _h : unvisited.lookup name with
    | none => []
    | some r => r :: superclassesFrom (without name unvisited) r.superclassName?
termination_by unvisited.length
decreasing_by exact length_without_lt _h

/-- The superclasses of a record, nearest first, as far as they have records. -/
def superclasses (u : Universe) (r : ClassRecord) : List ClassRecord :=
  superclassesFrom (without r.name u.records) r.superclassName?

/-- The interfaces with the given names and those that they extend, through
unvisited records; names met earlier come first. -/
def interfacesFrom (unvisited : List (String × ClassRecord)) :
    List String → List ClassRecord
  | [] => []
  | name :: pending =>
    match _h : unvisited.lookup name with
    | none => interfacesFrom unvisited pending
    | some r => r :: interfacesFrom (without name unvisited) (pending ++ r.interfaces)
termination_by pending => (unvisited.length, pending.length)
decreasing_by
  · exact Prod.Lex.right _ (by simp)
  · exact Prod.Lex.left _ _ (length_without_lt _h)

/-- The interfaces of a record and, unless it is an interface itself, of its
superclasses, with those that they extend. -/
def interfaces (u : Universe) (r : ClassRecord) : List ClassRecord :=
  let roots := if r.isInterface then [r] else r :: u.superclasses r
  interfacesFrom (without r.name u.records) (roots.flatMap (·.interfaces))

/-- Whether a class of some name is among the superclasses of a record. -/
def extends? (u : Universe) (r : ClassRecord) (base : String) : Bool :=
  (u.superclasses r).any (·.name == base)

end Universe

end ApiSurface
