/-
ApiSurface.Proofs.ClassFile.Format — how classes are written.

The format is given as relations between what is written and its bytes, one for each
structure of the format and without a word about reading. They leave open what the
format leaves open: the order of the pool entries and which of several equal ones an
index points to, entries that nothing points to, the order of attributes, and any
attributes that are not known, with any contents, among those that are.

A text in the pool is any sequence of 16-bit units. Units that spell a text stand for
this text; a surrogate without a partner belongs to no text, and the replacement
character stands for it.
-/
import ApiSurface.ClassFile.Reader
import ApiSurface.Proofs.ClassFile.ModifiedUtf8
import ApiSurface.Proofs.ClassFile.Takes

namespace ApiSurface

open Number (Double)
open Reader (bigEndian)

/-! ## 1. The constant pool -/

/-- The tags of entries whose contents are looked at. -/
def Constant.inspectedTags : List Tag :=
  [.utf8, .integer, .float, .long, .double, .classRef, .string, .nameAndType]

/-- The bytes of a pool entry: its tag, and then what the tag asks for. -/
inductive Constant.Written : Constant → List UInt8 → Prop where
  | utf8 {us : List Nat} : (∀ u ∈ us, u < 0x10000) →
      (ModifiedUtf8.encode us).length < 2 ^ 16 →
      Written (.utf8 (ModifiedUtf8.textOf us))
        (bigEndian 1 Tag.utf8.code ++ (bigEndian 2 (ModifiedUtf8.encode us).length
          ++ ModifiedUtf8.encode us))
  | integer {n : Int} : -2 ^ 31 ≤ n → n < 2 ^ 31 →
      Written (.integer n) (bigEndian 1 Tag.integer.code ++ bigEndian 4 (n % 2 ^ 32).toNat)
  | float {bits : Nat} : bits < 2 ^ 32 →
      Written (.float (Double.ofSingle bits)) (bigEndian 1 Tag.float.code ++ bigEndian 4 bits)
  | long {n : Int} : -2 ^ 63 ≤ n → n < 2 ^ 63 →
      Written (.long n) (bigEndian 1 Tag.long.code ++ bigEndian 8 (n % 2 ^ 64).toNat)
  | double {bits : Nat} : bits < 2 ^ 64 →
      Written (.double (Double.ofPattern bits)) (bigEndian 1 Tag.double.code ++ bigEndian 8 bits)
  | classRef {name : Nat} : name < 2 ^ 16 →
      Written (.classRef name) (bigEndian 1 Tag.classRef.code ++ bigEndian 2 name)
  | string {text : Nat} : text < 2 ^ 16 →
      Written (.string text) (bigEndian 1 Tag.string.code ++ bigEndian 2 text)
  | nameAndType {name descriptor : Nat} : name < 2 ^ 16 → descriptor < 2 ^ 16 →
      Written (.nameAndType name descriptor)
        (bigEndian 1 Tag.nameAndType.code ++ (bigEndian 2 name ++ bigEndian 2 descriptor))
  | uninspected {tag : Tag} {payload : List UInt8} : tag ∉ inspectedTags →
      payload.length = tag.payloadSize →
      Written (.uninspected tag payload) (bigEndian 1 tag.code ++ payload)

/-- Every text that is not too long can be written, as its own units. -/
theorem Constant.written_utf8 {s : String}
    (h : (ModifiedUtf8.encode (ModifiedUtf8.units s)).length < 2 ^ 16) :
    (Constant.utf8 s).Written (bigEndian 1 Tag.utf8.code
      ++ (bigEndian 2 (ModifiedUtf8.encode (ModifiedUtf8.units s)).length
        ++ ModifiedUtf8.encode (ModifiedUtf8.units s))) := by
  have hw := Constant.Written.utf8 (fun _ hu => ModifiedUtf8.lt_of_mem_units hu) h
  rwa [ModifiedUtf8.textOf_units] at hw

namespace Pool

/-- The count of indices that some entries take. -/
def width (es : List Constant) : Nat := (es.map (·.tag.width)).sum

/-- The index of an entry is one more than what the entries before it take. -/
def Holds (es : List Constant) (i : Nat) (c : Constant) : Prop :=
  ∃ before after, es = before ++ c :: after ∧ i = 1 + width before

/-- The bytes of a pool: the first index behind its entries, and then these. -/
def Written (es : List Constant) (l : List UInt8) : Prop :=
  1 + width es < 2 ^ 16 ∧ ∃ chunks, List.Forall₂ Constant.Written es chunks ∧
    l = bigEndian 2 (1 + width es) ++ chunks.flatten

end Pool

/-! ## 2. Indices, and things in a row -/

/-- The index of a text. -/
def TextAt (es : List Constant) (s : String) (l : List UInt8) : Prop :=
  ∃ i, Pool.Holds es i (.utf8 s) ∧ l = bigEndian 2 i

/-- The index of a class, given by its binary name. -/
def ClassAt (es : List Constant) (name : String) (l : List UInt8) : Prop :=
  ∃ i text internal, Pool.Holds es i (.classRef text) ∧ Pool.Holds es text (.utf8 internal) ∧
    name = binaryName internal ∧ l = bigEndian 2 i

/-- The index of a name with a descriptor. -/
def NameAndTypeAt (es : List Constant) (method : String × String) (l : List UInt8) : Prop :=
  ∃ i name descriptor, Pool.Holds es i (.nameAndType name descriptor) ∧
    Pool.Holds es name (.utf8 method.1) ∧ Pool.Holds es descriptor (.utf8 method.2) ∧
      l = bigEndian 2 i

/-- An index that may be missing; zero stands for no entry. -/
def OptionalAt {α : Type} (at' : α → List UInt8 → Prop) : Option α → List UInt8 → Prop
  | none, l => l = bigEndian 2 0
  | some a, l => at' a l

/-- A count, and that many things. -/
def Counted {α : Type} (one : α → List UInt8 → Prop) (items : List α) (l : List UInt8) : Prop :=
  items.length < 2 ^ 16 ∧ ∃ chunks, List.Forall₂ one items chunks ∧
    l = bigEndian 2 items.length ++ chunks.flatten

/-! ## 3. Annotations -/

/-- The byte of an element value's tag. -/
def tagByte (tag : Char) : List UInt8 := bigEndian 1 tag.toNat

/-- The bytes of an element value. Values of the three small integer kinds and of the
kind `int` are written alike; a truth value is a number that is not zero. An annotation
has a type and pairs of names and values, of which each name occurs once. -/
inductive Value.Written (es : List Constant) : Value → List UInt8 → Prop where
  | integer {tag : Char} {i : Nat} {n : Int} : tag ∈ ['B', 'S', 'I'] →
      Pool.Holds es i (.integer n) → Written es (.integer n) (tagByte tag ++ bigEndian 2 i)
  | long {i : Nat} {n : Int} : Pool.Holds es i (.long n) →
      Written es (.integer n) (tagByte 'J' ++ bigEndian 2 i)
  | float {i : Nat} {x : Double} : Pool.Holds es i (.float x) →
      Written es (.real x) (tagByte 'F' ++ bigEndian 2 i)
  | double {i : Nat} {x : Double} : Pool.Holds es i (.double x) →
      Written es (.real x) (tagByte 'D' ++ bigEndian 2 i)
  | boolean {i : Nat} {n : Int} : Pool.Holds es i (.integer n) →
      Written es (.boolean (n != 0)) (tagByte 'Z' ++ bigEndian 2 i)
  | character {i : Nat} {p : CodePoint} : Pool.Holds es i (.integer p.val) →
      Written es (.text [p]) (tagByte 'C' ++ bigEndian 2 i)
  | text {s : String} {l : List UInt8} : TextAt es s l →
      Written es (.text (Text.ofString s)) (tagByte 's' ++ l)
  | enumConstant {type constant : String} {l l' : List UInt8} : TextAt es type l →
      TextAt es constant l' →
      Written es (.enumConstant (binaryNameOfDescriptor type) constant) (tagByte 'e' ++ (l ++ l'))
  | classLiteral {descriptor : String} {l : List UInt8} : TextAt es descriptor l →
      Written es (.classLiteral descriptor) (tagByte 'c' ++ l)
  | annotation {type : String} {l : List UInt8} {values : List (String × Value)}
      {chunks : List (List UInt8 × List UInt8)} : TextAt es type l → values.length < 2 ^ 16 →
      (values.map (·.1)).Nodup → values.length = chunks.length →
      (∀ p ∈ values.zip chunks, TextAt es p.1.1 p.2.1) →
      (∀ p ∈ values.zip chunks, Written es p.1.2 p.2.2) →
      Written es (.annotationLiteral (binaryNameOfDescriptor type) true values)
        (tagByte '@' ++ (l ++ (bigEndian 2 values.length
          ++ (chunks.map fun c => c.1 ++ c.2).flatten)))
  | list {items : List Value} {chunks : List (List UInt8)} : items.length < 2 ^ 16 →
      items.length = chunks.length → (∀ p ∈ items.zip chunks, Written es p.1 p.2) →
      Written es (.list items) (tagByte '[' ++ (bigEndian 2 items.length ++ chunks.flatten))

/-- An annotation has the bytes of an element value that is one, without the tag. -/
def Annotation.Written (es : List Constant) (a : Annotation) (l : List UInt8) : Prop :=
  Value.Written es (.annotationLiteral a.type true a.values) (tagByte '@' ++ l)

/-! ## 4. Attributes -/

/-- The bytes of an attribute: its name, and a body with its length in front. -/
def Attribute.Written (es : List Constant) (a : Attribute) (l : List UInt8) : Prop :=
  ∃ name, TextAt es a.name name ∧ a.body.length < 2 ^ 32 ∧
    l = name ++ (bigEndian 4 a.body.length ++ a.body)

/-- Among some attributes, at most one has a given name. What its body holds is there
exactly if the attribute is. -/
def Attribute.Gives {α : Type} (as : List Attribute) (name : String)
    (body : α → List UInt8 → Prop) : Option α → Prop
  | none => ∀ a ∈ as, a.name ≠ name
  | some x => ∃ l, as.filter (·.name = name) = [⟨name, l⟩] ∧ body x l

/-- The attributes with a property hold some items, group by group. -/
def Attribute.Holds {α : Type} (as : List Attribute) (p : Attribute → Bool)
    (body : Attribute → List α → Prop) (items : List α) : Prop :=
  ∃ groups, List.Forall₂ body (as.filter p) groups ∧ items = groups.flatten

/-- The annotations that attributes hold, those of one attribute all visible or all not. -/
def Attribute.HoldAnnotations (es : List Constant) (as : List Attribute)
    (annotations : List Annotation) : Prop :=
  Attribute.Holds as (·.annotationVisibility?.isSome) (fun a group =>
    Counted (fun x l => Annotation.Written es x l ∧ a.annotationVisibility? = some x.isVisible)
      group a.body) annotations

/-! ## 5. Members -/

/-- The index of a field's constant. Truth values and characters are written as numbers. -/
inductive ConstantAt (es : List Constant) (descriptor : String) : Value → List UInt8 → Prop where
  | boolean {i : Nat} {n : Int} : descriptor = "Z" → Pool.Holds es i (.integer n) →
      ConstantAt es descriptor (.boolean (n != 0)) (bigEndian 2 i)
  | character {i : Nat} {p : CodePoint} : descriptor = "C" → Pool.Holds es i (.integer p.val) →
      ConstantAt es descriptor (.text [p]) (bigEndian 2 i)
  | integer {i : Nat} {n : Int} : descriptor ≠ "Z" → descriptor ≠ "C" →
      Pool.Holds es i (.integer n) → ConstantAt es descriptor (.integer n) (bigEndian 2 i)
  | long {i : Nat} {n : Int} : descriptor ≠ "Z" → descriptor ≠ "C" →
      Pool.Holds es i (.long n) → ConstantAt es descriptor (.integer n) (bigEndian 2 i)
  | float {i : Nat} {x : Double} : descriptor ≠ "Z" → descriptor ≠ "C" →
      Pool.Holds es i (.float x) → ConstantAt es descriptor (.real x) (bigEndian 2 i)
  | double {i : Nat} {x : Double} : descriptor ≠ "Z" → descriptor ≠ "C" →
      Pool.Holds es i (.double x) → ConstantAt es descriptor (.real x) (bigEndian 2 i)
  | string {i j : Nat} {s : String} : descriptor ≠ "Z" → descriptor ≠ "C" →
      Pool.Holds es i (.string j) → Pool.Holds es j (.utf8 s) →
      ConstantAt es descriptor (.text (Text.ofString s)) (bigEndian 2 i)

/-- The bytes of a field. -/
inductive FieldInfo.Written (es : List Constant) : FieldInfo → List UInt8 → Prop where
  | intro {f : FieldInfo} {as : List Attribute} {name descriptor attributes : List UInt8} :
      f.flags < 2 ^ 16 → TextAt es f.name name → TextAt es f.descriptor descriptor →
      Counted (Attribute.Written es) as attributes →
      Attribute.Gives as "ConstantValue" (ConstantAt es f.descriptor) f.constant →
      Attribute.Gives as "Signature" (TextAt es) f.signature →
      Attribute.HoldAnnotations es as f.annotations →
      Written es f (bigEndian 2 f.flags ++ (name ++ (descriptor ++ attributes)))

/-- The bytes of a method. -/
inductive MethodInfo.Written (es : List Constant) : MethodInfo → List UInt8 → Prop where
  | intro {m : MethodInfo} {as : List Attribute} {name descriptor attributes : List UInt8} :
      m.flags < 2 ^ 16 → TextAt es m.name name → TextAt es m.descriptor descriptor →
      Counted (Attribute.Written es) as attributes →
      Attribute.Gives as "Signature" (TextAt es) m.signature →
      Attribute.Gives as "AnnotationDefault" (Value.Written es) m.default →
      Attribute.HoldAnnotations es as m.annotations →
      Written es m (bigEndian 2 m.flags ++ (name ++ (descriptor ++ attributes)))

/-! ## 6. Classes -/

/-- The bytes of an entry about a nested class. -/
inductive InnerClass.Written (es : List Constant) : InnerClass → List UInt8 → Prop where
  | intro {e : InnerClass} {inner outer simpleName : List UInt8} :
      ClassAt es e.inner inner → OptionalAt (ClassAt es) e.outer outer →
      OptionalAt (TextAt es) e.simpleName simpleName → e.flags < 2 ^ 16 →
      Written es e (inner ++ (outer ++ (simpleName ++ bigEndian 2 e.flags)))

/-- The bytes of the enclosing class and method. -/
inductive Enclosing.Written (es : List Constant) : Enclosing → List UInt8 → Prop where
  | intro {e : Enclosing} {owner method : List UInt8} : ClassAt es e.owner owner →
      OptionalAt (NameAndTypeAt es) e.method method → Written es e (owner ++ method)

/-- The bytes of a class. -/
inductive ClassFile.Written : ClassFile → List UInt8 → Prop where
  | intro {c : ClassFile} {es : List Constant} {as : List Attribute}
      {pool name superclass interfaces fields methods attributes : List UInt8} :
      c.minor < 2 ^ 16 → c.major < 2 ^ 16 → c.flags < 2 ^ 16 →
      Pool.Written es pool → ClassAt es c.name name →
      OptionalAt (ClassAt es) c.superclass superclass →
      Counted (ClassAt es) c.interfaces interfaces →
      Counted (FieldInfo.Written es) c.fields fields →
      Counted (MethodInfo.Written es) c.methods methods →
      Counted (Attribute.Written es) as attributes →
      Attribute.Gives as "Signature" (TextAt es) c.signature →
      Attribute.Holds as (·.name = "InnerClasses")
        (fun a group => Counted (InnerClass.Written es) group a.body) c.innerClasses →
      Attribute.Gives as "EnclosingMethod" (Enclosing.Written es) c.enclosing →
      Attribute.HoldAnnotations es as c.annotations →
      Written c (bigEndian 4 ClassFile.magic ++ (bigEndian 2 c.minor ++ (bigEndian 2 c.major
        ++ (pool ++ (bigEndian 2 c.flags ++ (name ++ (superclass ++ (interfaces ++ (fields
          ++ (methods ++ attributes))))))))))

end ApiSurface
