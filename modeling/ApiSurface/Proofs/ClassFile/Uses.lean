/-
ApiSurface.Proofs.ClassFile.Uses — constants that a class uses as values.

An element of an annotation, and a field of characters, gets its value from a constant of
the pool. The format says of which kind this constant is (`ConstantUse.suits`); the reader
takes any number or text and converts it, which can fail (`ConstantUse.flaw?`). What the format
says is enough for the conversion (`ConstantUse.flaw?_eq_none`).

`ClassFile.uses` lists the constants that reading some bytes gets to, in order and as far as
it gets. It goes along the readers: what a part of the class uses counts once all parts in
front of it are read.
-/
import ApiSurface.Proofs.ClassFile.Takes
import ApiSurface.Proofs.Outcome

namespace ApiSurface

open Reader

/-! ## 1. Uses of constants -/

/-- A constant of a pool that is used as a value of a basic type, given by its letter. -/
structure ConstantUse where
  pool : Pool
  type : Char
  index : Nat

namespace ConstantUse

/-- The letters of the basic types. -/
def letters : List Char := ['B', 'C', 'D', 'F', 'I', 'J', 'S', 'Z']

/-- Whether the format lets a constant be used as a value of a type. -/
def suits : Char → Constant → Bool
  | 'B', .integer _ | 'I', .integer _ | 'S', .integer _ | 'Z', .integer _ => true
  | 'C', .integer n => decide (0 ≤ n) && decide (n ≤ 0x10FFFF)
  | 'J', .long _ | 'F', .float _ | 'D', .double _ => true
  | _, _ => false

/-- The index leads to no entry, or to one that the format lets be used so. -/
def IsPrescribed (u : ConstantUse) : Prop :=
  ∀ c ∈ u.pool.entry? u.index, suits u.type c = true

instance (u : ConstantUse) : Decidable u.IsPrescribed :=
  inferInstanceAs (Decidable (∀ c ∈ u.pool.entry? u.index, suits u.type c = true))

/-- A number or a text as a value of a type. -/
def convert (type : Char) (s : Scalar) : Except IllTyped Value :=
  match type with
  | 'B' | 'I' | 'J' | 'S' => s.toInteger.map .integer
  | 'D' | 'F' => s.toReal.map .real
  | 'Z' => .ok (.boolean s.truth)
  | 'C' => s.toCharacter.map .text
  | _ => .ok s.value

/-- Why the number or text at the index is no value of the type, if there is one. -/
def flaw? (u : ConstantUse) : Option IllTyped :=
  match u.pool.scalar u.index with
  | .ok s =>
    match convert u.type s with
    | .ok _ => none
    | .error why => some why
  | .error _ => none

/-- The numbers of the code space are those of characters. -/
theorem exists_toCharacter {n : Int} (h0 : 0 ≤ n) (hn : n ≤ 0x10FFFF) :
    ∃ p, (Scalar.integer n).toCharacter = .ok [p] := by
  have hwide : ¬ (decide (n < -0x80000000) || decide (0x80000000 ≤ n)) = true := by
    simp only [Bool.or_eq_true, decide_eq_true_eq]
    omega
  have hlt : n.toNat < 0x110000 := by omega
  rw [Scalar.toCharacter, if_neg hwide, if_neg h0.not_gt, CodePoint.ofNat?, dif_pos hlt]
  exact ⟨_, rfl⟩

/-- A constant that is used as the format says is a value of the type. -/
theorem flaw?_eq_none {u : ConstantUse} (h : u.IsPrescribed) : u.flaw? = none := by
  unfold flaw?
  cases hs : u.pool.scalar u.index with
  | error why => rfl
  | ok s =>
    obtain ⟨c, hentry, hscalar⟩ := bind_eq_ok.mp hs
    have hsuits := h c (Pool.entry?_of_entry hentry)
    unfold suits at hsuits
    split at hsuits
    case h_5 n htype =>
      have hrange : 0 ≤ n ∧ n ≤ 0x10FFFF := by simpa using hsuits
      obtain ⟨p, hp⟩ := exists_toCharacter hrange.1 hrange.2
      cases hscalar
      simp [htype, convert, hp, Except.map]
    case h_9 => cases hsuits
    -- every other type takes the number as it is
    all_goals
      next htype =>
        cases hscalar
        simp [htype, convert, Scalar.toInteger, Scalar.toReal, Except.map]

/-- What is used behind a computation that succeeds. -/
def after {α : Type} (e : Except ClassFault α) (uses : α → List ConstantUse) : List ConstantUse :=
  match e with
  | .ok a => uses a
  | .error _ => []

end ConstantUse

/-! ## 2. What reading gets to -/

namespace Reader

variable {α : Type}

/-- What is used behind a reader that succeeds. -/
def behind (r : Reader α) (uses : α → List UInt8 → List ConstantUse) :
    List UInt8 → List ConstantUse := fun l => ConstantUse.after (r l) fun p => uses p.1 p.2

/-- What `n` things in a row use. -/
def usesOfMany (n : Nat) (one : Reader α) (uses : List UInt8 → List ConstantUse) :
    List UInt8 → List ConstantUse :=
  match n with
  | 0 => fun _ => []
  | n + 1 => fun l => uses l ++ behind one (fun _ => usesOfMany n one uses) l

/-- What things use that follow their count. -/
def usesOfCounted (one : Reader α) (uses : List UInt8 → List ConstantUse) :
    List UInt8 → List ConstantUse :=
  behind u2 fun n => usesOfMany n one uses

end Reader

/-- One element of an annotation, its name in front. -/
def readElementWith (value : Reader Value) (pool : Pool) : Reader (String × Value) := do
  let name ← Reader.name pool
  let v ← value
  pure (name, v)

/-- What an annotation uses whose element values use `uses`. -/
def usesOfAnnotationWith (value : Reader Value) (uses : List UInt8 → List ConstantUse)
    (pool : Pool) : List UInt8 → List ConstantUse :=
  behind (Reader.typeName pool) fun _ =>
    usesOfCounted (readElementWith value pool) (behind (Reader.name pool) fun _ => uses)

/-- What an element value nested at most `depth` deep uses. -/
def Value.usesWithin (pool : Pool) : Nat → List UInt8 → List ConstantUse
  | 0 => fun _ => []
  | depth + 1 => behind u1 fun code =>
    let tag := Char.ofNat code
    if tag ∈ ConstantUse.letters then behind u2 fun index _ => [⟨pool, tag, index⟩]
    else if tag = '@' then
      usesOfAnnotationWith (Value.readWithin pool depth) (Value.usesWithin pool depth) pool
    else if tag = '[' then
      usesOfCounted (Value.readWithin pool depth) (Value.usesWithin pool depth)
    else fun _ => []

/-- What an element value uses. -/
def Value.uses (pool : Pool) : List UInt8 → List ConstantUse := fun l =>
  Value.usesWithin pool l.length l

/-- What the annotations of one attribute use. -/
def usesOfAnnotations (pool : Pool) (isVisible : Bool) : List UInt8 → List ConstantUse :=
  usesOfCounted (readAnnotationWith (Value.read pool) pool isVisible)
    (usesOfAnnotationWith (Value.read pool) (Value.uses pool) pool)

/-- What an attribute uses if it holds annotations. -/
def Attribute.usesOfAnnotations (pool : Pool) (a : Attribute) : List ConstantUse :=
  match a.annotationVisibility? with
  | some isVisible => ApiSurface.usesOfAnnotations pool isVisible a.body
  | none => []

/-- What the constant of a field uses, which is a character if the descriptor says so. -/
def FieldInfo.usesOfConstant (pool : Pool) (descriptor : String) :
    List UInt8 → List ConstantUse :=
  if descriptor = "C" then behind u2 fun index _ => [⟨pool, 'C', index⟩] else fun _ => []

/-- What an attribute of a field uses. -/
def FieldInfo.usesOfAttribute (pool : Pool) (f : FieldInfo) (a : Attribute) : List ConstantUse :=
  if a.name = "ConstantValue" then FieldInfo.usesOfConstant pool f.descriptor a.body
  else a.usesOfAnnotations pool

/-- What an attribute of a method uses. -/
def MethodInfo.usesOfAttribute (pool : Pool) (a : Attribute) : List ConstantUse :=
  if a.name = "AnnotationDefault" then Value.uses pool a.body else a.usesOfAnnotations pool

/-- What attributes use that change an entity one after the other. -/
def Attribute.usesInTurn {α : Type} (step : α → Attribute → Except ClassFault α)
    (uses : α → Attribute → List ConstantUse) : α → List Attribute → List ConstantUse
  | _, [] => []
  | s, a :: as => uses s a ++ ConstantUse.after (step s a) fun s' => usesInTurn step uses s' as

/-- What a member uses: it starts with its flags, its name and its descriptor, and its
attributes change it one after the other. -/
def Pool.usesOfMember {α : Type} (pool : Pool) (start : Nat → String → String → α)
    (step : α → Attribute → Except ClassFault α) (uses : α → Attribute → List ConstantUse) :
    List UInt8 → List ConstantUse :=
  behind u2 fun flags => behind (Reader.name pool) fun name =>
    behind (Reader.name pool) fun descriptor => behind (Attribute.takeAll pool) fun as _ =>
      Attribute.usesInTurn step uses (start flags name descriptor) as

/-- What a field uses. -/
def FieldInfo.uses (pool : Pool) : List UInt8 → List ConstantUse :=
  pool.usesOfMember (fun flags name descriptor => ⟨flags, name, descriptor, none, none, []⟩)
    (FieldInfo.withAttribute pool) (FieldInfo.usesOfAttribute pool)

/-- What a method uses. -/
def MethodInfo.uses (pool : Pool) : List UInt8 → List ConstantUse :=
  pool.usesOfMember (fun flags name descriptor => ⟨flags, name, descriptor, none, [], none⟩)
    (MethodInfo.withAttribute pool) fun _ => MethodInfo.usesOfAttribute pool

/-- What stands in front of the members of a class: its pool, and what it says of itself. -/
def ClassFile.readStart : Reader (Pool × ClassFile) := do
  unless (← u4) = ClassFile.magic do fail .badMagic
  let minor ← u2
  let major ← u2
  let pool ← Pool.read
  let flags ← u2
  let name ← look (pool.className (← u2))
  let superclass ← look (pool.optionalClassName (← u2))
  let interfaces ← counted do look (pool.className (← u2))
  return (pool, ⟨major, minor, flags, name, superclass, interfaces, none, [], [], [], [], none⟩)

/-- What stands behind the start of a class. -/
def ClassFile.readRest (pool : Pool) (c : ClassFile) : Reader ClassFile := do
  let fields ← counted (FieldInfo.read pool)
  let methods ← counted (MethodInfo.read pool)
  let attributes ← Attribute.takeAll pool
  StateT.lift <| attributes.foldlM (ClassFile.withAttribute pool)
    { c with fields := fields, methods := methods }

/-- What the fields, the methods and the attributes of a class use. -/
def ClassFile.usesOfRest (pool : Pool) (c : ClassFile) : List UInt8 → List ConstantUse := fun l =>
  usesOfCounted (FieldInfo.read pool) (FieldInfo.uses pool) l ++
    behind (counted (FieldInfo.read pool)) (fun fields l =>
      usesOfCounted (MethodInfo.read pool) (MethodInfo.uses pool) l ++
        behind (counted (MethodInfo.read pool)) (fun methods =>
          behind (Attribute.takeAll pool) fun as _ =>
            Attribute.usesInTurn (ClassFile.withAttribute pool)
              (fun _ => Attribute.usesOfAnnotations pool)
              { c with fields := fields, methods := methods } as) l) l

/-- The constants that reading a class gets to. -/
def ClassFile.uses : List UInt8 → List ConstantUse :=
  behind readStart fun p => usesOfRest p.1 p.2

end ApiSurface
