/-
ApiSurface.Proofs.ClassFile.Attributes — reading back members with their attributes.

The reader goes through the attributes of an entity and adds what each of them tells.
`Pending` says what the attributes ahead still have to add to what is known already; one
attribute makes one step of it, in whatever order they stand, and an attribute that is
not known makes none. With no attribute ahead, everything is known.
-/
import ApiSurface.Proofs.ClassFile.Value

namespace ApiSurface

open Reader

/-! ## 1. Attributes ahead -/

namespace Attribute

variable {α : Type} {a : Attribute} {as : List Attribute} {name : String}

/-- The attributes ahead turn `old` into `new`: with the one attribute of some name, or
not at all if there is none. -/
def Sets (as : List Attribute) (name : String) (body : α → List UInt8 → Prop)
    (old new : Option α) : Prop :=
  ((∀ a ∈ as, a.name ≠ name) ∧ new = old) ∨
    ∃ x l, as.filter (·.name = name) = [⟨name, l⟩] ∧ body x l ∧ new = some x

/-- The attributes ahead add items group by group. -/
def Adds (as : List Attribute) (p : Attribute → Bool) (body : Attribute → List α → Prop)
    (old new : List α) : Prop :=
  ∃ items, Holds as p body items ∧ new = old ++ items

section

variable {body : α → List UInt8 → Prop} {old new : Option α}

theorem Gives.sets (h : Gives as name body new) : Sets as name body none new := by
  cases new with
  | none => exact .inl ⟨h, rfl⟩
  | some x =>
    obtain ⟨l, hl, hx⟩ := h
    exact .inr ⟨x, l, hl, hx, rfl⟩

theorem Sets.eq_of_nil (h : Sets [] name body old new) : new = old := by
  rcases h with ⟨-, h⟩ | ⟨x, l, hl, -⟩
  · exact h
  · cases hl

/-- An attribute of another name sets nothing. -/
theorem Sets.skip (h : Sets (a :: as) name body old new) (ha : a.name ≠ name) :
    Sets as name body old new := by
  rcases h with ⟨hnone, h⟩ | ⟨x, l, hl, hx⟩
  · exact .inl ⟨fun b hb => hnone b (List.mem_cons_of_mem _ hb), h⟩
  · rw [List.filter_cons_of_neg (by simpa using ha)] at hl
    exact .inr ⟨x, l, hl, hx⟩

/-- The attribute of the name sets what its body holds, and no other does. -/
theorem Sets.take (h : Sets (a :: as) name body old new) (ha : a.name = name) :
    ∃ x, body x a.body ∧ Sets as name body (some x) new := by
  rcases h with ⟨hnone, -⟩ | ⟨x, l, hl, hx, rfl⟩
  · exact absurd ha (hnone a List.mem_cons_self)
  · rw [List.filter_cons_of_pos (by simpa using ha), List.cons.injEq] at hl
    obtain ⟨rfl, hrest⟩ := hl
    refine ⟨x, hx, .inl ⟨fun b hb hname => ?_, rfl⟩⟩
    have hmem : b ∈ as.filter (·.name = name) := List.mem_filter.mpr ⟨hb, by simpa using hname⟩
    rw [hrest] at hmem
    cases hmem

end

section

variable {p : Attribute → Bool} {body : Attribute → List α → Prop} {old new : List α}

theorem Holds.adds (h : Holds as p body new) : Adds as p body [] new := ⟨new, h, rfl⟩

theorem Adds.eq_of_nil (h : Adds [] p body old new) : new = old := by
  obtain ⟨items, ⟨groups, hgroups, rfl⟩, rfl⟩ := h
  cases hgroups
  simp

theorem Adds.skip (h : Adds (a :: as) p body old new) (ha : p a = false) :
    Adds as p body old new := by
  obtain ⟨items, ⟨groups, hgroups, hitems⟩, hnew⟩ := h
  rw [List.filter_cons_of_neg (by simp [ha])] at hgroups
  exact ⟨items, ⟨groups, hgroups, hitems⟩, hnew⟩

theorem Adds.take (h : Adds (a :: as) p body old new) (ha : p a = true) :
    ∃ group, body a group ∧ Adds as p body (old ++ group) new := by
  obtain ⟨items, ⟨groups, hgroups, rfl⟩, rfl⟩ := h
  rw [List.filter_cons_of_pos ha] at hgroups
  cases hgroups with
  | @cons _ group _ groups hbody hrest =>
    exact ⟨group, hbody, groups.flatten, ⟨groups, hrest, rfl⟩, by simp⟩

end

/-- If each attribute ahead makes one step of what is pending, and nothing is pending once
none is ahead, going through them ends where it should. -/
theorem foldlM_eq_ok {ε σ : Type} {withAttribute : σ → Attribute → Except ε σ}
    (pending : List Attribute → σ → Prop) {final : σ}
    (hnil : ∀ s, pending [] s → s = final)
    (hcons : ∀ a as s, pending (a :: as) s → ∃ s', withAttribute s a = .ok s' ∧ pending as s')
    {s : σ} (h : pending as s) : as.foldlM withAttribute s = .ok final := by
  induction as generalizing s with
  | nil => exact congrArg Except.ok (hnil s h)
  | cons a as ih =>
    obtain ⟨s', hs', h'⟩ := hcons a as s h
    rw [List.foldlM_cons, hs']
    exact ih h'

/-- What a reader takes from a whole body is what the attribute gives. -/
theorem get_eq_ok {read : Reader α} {x : α} (h : read.Takes a.body x) : a.get read = .ok x := by
  rw [get, h.run]
  rfl

end Attribute

/-! ## 2. Bodies -/

namespace Pool.Stores

variable {pool : Pool} {es : List Constant} (h : pool.Stores es)
include h

/-- Attributes are taken apart without a look at their bodies. -/
theorem takes_attributes {as : List Attribute} {l : List UInt8}
    (ha : Counted (Attribute.Written es) as l) : (Attribute.takeAll pool).Takes l as := by
  refine ha.takes fun a l hl => ?_
  obtain ⟨name, hname, hlen, rfl⟩ := hl
  exact (h.takes_name hname).bind
    ((takes_u4 hlen).bind (takes_bytes a.body).bind_pure)

theorem takes_annotations {a : Attribute} {group : List Annotation} {isVisible : Bool}
    (hg : Counted (fun x l => Annotation.Written es x l ∧
      a.annotationVisibility? = some x.isVisible) group a.body)
    (ha : a.annotationVisibility? = some isVisible) :
    (readAnnotations pool isVisible).Takes a.body group := by
  refine hg.takes fun x l hx => ?_
  obtain ⟨hx, hvisible⟩ := hx
  rw [ha, Option.some.injEq] at hvisible
  rw [hvisible]
  exact hx.takes h

/-- A field constant is read back as a value of the field's type. -/
theorem takes_constant {descriptor : String} {v : Value} {l : List UInt8}
    (hv : ConstantAt es descriptor v l) :
    Takes (do typed ((← Reader.scalar pool).fieldValue descriptor)) l v := by
  have hread : ∀ {i : Nat} {c : Constant} {s : Scalar}, Pool.Holds es i c →
      pool.scalar i = .ok s → s.fieldValue descriptor = .ok v →
      Takes (do typed ((← Reader.scalar pool).fieldValue descriptor)) (bigEndian 2 i) v := by
    intro i c s hi hs hvalue
    have hr := (h.takes_scalar hi hs).bind (f := fun s => typed (s.fieldValue descriptor))
      (takes_typed hvalue)
    rwa [List.append_nil] at hr
  cases hv with
  | boolean hd hi => exact hread hi (h.scalar_integer hi) (by rw [Scalar.fieldValue, if_pos hd]; rfl)
  | character hd hi =>
    refine hread hi (h.scalar_integer hi) ?_
    rw [Scalar.fieldValue, if_neg (by rw [hd]; decide), if_pos hd, Scalar.toCharacter_val]
    rfl
  | integer hz hc hi =>
    exact hread hi (h.scalar_integer hi) (by rw [Scalar.fieldValue, if_neg hz, if_neg hc]; rfl)
  | long hz hc hi =>
    exact hread hi (h.scalar_long hi) (by rw [Scalar.fieldValue, if_neg hz, if_neg hc]; rfl)
  | float hz hc hi =>
    exact hread hi (h.scalar_float hi) (by rw [Scalar.fieldValue, if_neg hz, if_neg hc]; rfl)
  | double hz hc hi =>
    exact hread hi (h.scalar_double hi) (by rw [Scalar.fieldValue, if_neg hz, if_neg hc]; rfl)
  | string hz hc hi ht =>
    exact hread hi (h.scalar_string hi ht) (by rw [Scalar.fieldValue, if_neg hz, if_neg hc]; rfl)

end Pool.Stores

/-! ## 3. Fields -/

variable {pool : Pool} {es : List Constant}

/-- What the attributes ahead still have to add to a field `g` for it to be `f`. -/
structure FieldInfo.Pending (es : List Constant) (as : List Attribute) (g f : FieldInfo) :
    Prop where
  flags : g.flags = f.flags
  name : g.name = f.name
  descriptor : g.descriptor = f.descriptor
  constant : Attribute.Sets as "ConstantValue" (ConstantAt es f.descriptor) g.constant f.constant
  signature : Attribute.Sets as "Signature" (TextAt es) g.signature f.signature
  annotations : Attribute.Adds as (·.annotationVisibility?.isSome) (fun a group =>
    Counted (fun x l => Annotation.Written es x l ∧ a.annotationVisibility? = some x.isVisible)
      group a.body) g.annotations f.annotations

/-- One attribute ahead makes one step of what is pending. -/
theorem FieldInfo.Pending.step (h : pool.Stores es) {a : Attribute} {as : List Attribute}
    {g f : FieldInfo} (hp : FieldInfo.Pending es (a :: as) g f) :
    ∃ g', FieldInfo.withAttribute pool g a = .ok g' ∧ FieldInfo.Pending es as g' f := by
  by_cases hc : a.name = "ConstantValue"
  · obtain ⟨x, hx, hrest⟩ := hp.constant.take hc
    have hget := Attribute.get_eq_ok (h.takes_constant hx)
    refine ⟨{ g with constant := some x }, ?_, { hp with
      constant := hrest
      signature := hp.signature.skip (by rw [hc]; decide)
      annotations := hp.annotations.skip (by simp [Attribute.annotationVisibility?, hc]) }⟩
    rw [withAttribute, if_pos hc, hp.descriptor, hget]
    rfl
  by_cases hs : a.name = "Signature"
  · obtain ⟨x, hx, hrest⟩ := hp.signature.take hs
    have hget := Attribute.get_eq_ok (h.takes_name hx)
    refine ⟨{ g with signature := some x }, ?_, { hp with
      constant := hp.constant.skip hc
      signature := hrest
      annotations := hp.annotations.skip (by simp [Attribute.annotationVisibility?, hs]) }⟩
    rw [withAttribute, if_neg hc, if_pos hs, hget]
    rfl
  cases hv : a.annotationVisibility? with
  | none =>
    refine ⟨g, ?_, { hp with
      constant := hp.constant.skip hc
      signature := hp.signature.skip hs
      annotations := hp.annotations.skip (by simp [hv]) }⟩
    rw [withAttribute, if_neg hc, if_neg hs, hv]
    rfl
  | some isVisible =>
    obtain ⟨group, hg, hrest⟩ := hp.annotations.take (by simp [hv])
    have hget := Attribute.get_eq_ok (h.takes_annotations hg hv)
    refine ⟨{ g with annotations := g.annotations ++ group }, ?_, { hp with
      constant := hp.constant.skip hc
      signature := hp.signature.skip hs
      annotations := hrest }⟩
    rw [withAttribute, if_neg hc, if_neg hs, hv]
    simp only [hget]
    rfl

theorem FieldInfo.Pending.eq_of_nil {g f : FieldInfo} (hp : FieldInfo.Pending es [] g f) :
    g = f := by
  obtain ⟨hflags, hname, hdescriptor, hconstant, hsignature, hannotations⟩ := hp
  have hconstant := hconstant.eq_of_nil
  have hsignature := hsignature.eq_of_nil
  have hannotations := hannotations.eq_of_nil
  cases f
  cases g
  simp_all

/-- A field is read back from its bytes. -/
theorem FieldInfo.Written.takes (h : pool.Stores es) {f : FieldInfo} {l : List UInt8}
    (hf : f.Written es l) : (FieldInfo.read pool).Takes l f := by
  obtain ⟨hflags, hname, hdescriptor, hattributes, hconstant, hsignature, hannotations⟩ := hf
  have hp : FieldInfo.Pending es _ ⟨f.flags, f.name, f.descriptor, none, none, []⟩ f :=
    ⟨rfl, rfl, rfl, hconstant.sets, hsignature.sets, hannotations.adds⟩
  have hlast := (h.takes_attributes hattributes).bind (f := fun as => StateT.lift
    (as.foldlM (FieldInfo.withAttribute pool) ⟨f.flags, f.name, f.descriptor, none, none, []⟩))
    (takes_lift (Attribute.foldlM_eq_ok (FieldInfo.Pending es · · f)
      (fun _ hp => hp.eq_of_nil) (fun _ _ _ hp => hp.step h) hp))
  rw [List.append_nil] at hlast
  exact (takes_u2 hflags).bind ((h.takes_name hname).bind ((h.takes_name hdescriptor).bind hlast))

/-! ## 4. Methods -/

/-- What the attributes ahead still have to add to a method `g` for it to be `m`. -/
structure MethodInfo.Pending (es : List Constant) (as : List Attribute) (g m : MethodInfo) :
    Prop where
  flags : g.flags = m.flags
  name : g.name = m.name
  descriptor : g.descriptor = m.descriptor
  signature : Attribute.Sets as "Signature" (TextAt es) g.signature m.signature
  default : Attribute.Sets as "AnnotationDefault" (Value.Written es) g.default m.default
  annotations : Attribute.Adds as (·.annotationVisibility?.isSome) (fun a group =>
    Counted (fun x l => Annotation.Written es x l ∧ a.annotationVisibility? = some x.isVisible)
      group a.body) g.annotations m.annotations

/-- One attribute ahead makes one step of what is pending. -/
theorem MethodInfo.Pending.step (h : pool.Stores es) {a : Attribute} {as : List Attribute}
    {g m : MethodInfo} (hp : MethodInfo.Pending es (a :: as) g m) :
    ∃ g', MethodInfo.withAttribute pool g a = .ok g' ∧ MethodInfo.Pending es as g' m := by
  by_cases hs : a.name = "Signature"
  · obtain ⟨x, hx, hrest⟩ := hp.signature.take hs
    have hget := Attribute.get_eq_ok (h.takes_name hx)
    refine ⟨{ g with signature := some x }, ?_, { hp with
      signature := hrest
      default := hp.default.skip (by rw [hs]; decide)
      annotations := hp.annotations.skip (by simp [Attribute.annotationVisibility?, hs]) }⟩
    rw [withAttribute, if_pos hs, hget]
    rfl
  by_cases hd : a.name = "AnnotationDefault"
  · obtain ⟨x, hx, hrest⟩ := hp.default.take hd
    have hget := Attribute.get_eq_ok (hx.takes h)
    refine ⟨{ g with default := some x }, ?_, { hp with
      signature := hp.signature.skip hs
      default := hrest
      annotations := hp.annotations.skip (by simp [Attribute.annotationVisibility?, hd]) }⟩
    rw [withAttribute, if_neg hs, if_pos hd, hget]
    rfl
  cases hv : a.annotationVisibility? with
  | none =>
    refine ⟨g, ?_, { hp with
      signature := hp.signature.skip hs
      default := hp.default.skip hd
      annotations := hp.annotations.skip (by simp [hv]) }⟩
    rw [withAttribute, if_neg hs, if_neg hd, hv]
    rfl
  | some isVisible =>
    obtain ⟨group, hg, hrest⟩ := hp.annotations.take (by simp [hv])
    have hget := Attribute.get_eq_ok (h.takes_annotations hg hv)
    refine ⟨{ g with annotations := g.annotations ++ group }, ?_, { hp with
      signature := hp.signature.skip hs
      default := hp.default.skip hd
      annotations := hrest }⟩
    rw [withAttribute, if_neg hs, if_neg hd, hv]
    simp only [hget]
    rfl

theorem MethodInfo.Pending.eq_of_nil {g m : MethodInfo} (hp : MethodInfo.Pending es [] g m) :
    g = m := by
  obtain ⟨hflags, hname, hdescriptor, hsignature, hdefault, hannotations⟩ := hp
  have hsignature := hsignature.eq_of_nil
  have hdefault := hdefault.eq_of_nil
  have hannotations := hannotations.eq_of_nil
  cases m
  cases g
  simp_all

/-- A method is read back from its bytes. -/
theorem MethodInfo.Written.takes (h : pool.Stores es) {m : MethodInfo} {l : List UInt8}
    (hm : m.Written es l) : (MethodInfo.read pool).Takes l m := by
  obtain ⟨hflags, hname, hdescriptor, hattributes, hsignature, hdefault, hannotations⟩ := hm
  have hp : MethodInfo.Pending es _ ⟨m.flags, m.name, m.descriptor, none, [], none⟩ m :=
    ⟨rfl, rfl, rfl, hsignature.sets, hdefault.sets, hannotations.adds⟩
  have hlast := (h.takes_attributes hattributes).bind (f := fun as => StateT.lift
    (as.foldlM (MethodInfo.withAttribute pool) ⟨m.flags, m.name, m.descriptor, none, [], none⟩))
    (takes_lift (Attribute.foldlM_eq_ok (MethodInfo.Pending es · · m)
      (fun _ hp => hp.eq_of_nil) (fun _ _ _ hp => hp.step h) hp))
  rw [List.append_nil] at hlast
  exact (takes_u2 hflags).bind ((h.takes_name hname).bind ((h.takes_name hdescriptor).bind hlast))

end ApiSurface
