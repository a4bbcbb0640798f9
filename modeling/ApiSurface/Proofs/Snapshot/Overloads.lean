/-
ApiSurface.Proofs.Snapshot.Overloads — no two methods of a class share a line.

The line of a method is a row of words with blanks between them, and behind the last of them
a row of types in parentheses. No word before the parenthesis has one, so the line is cut
there, and both rows are read back: the last word before the cut is the name, and the one
before it the type of the result. A constructor has no such word, but its result is known.

So the line tells the name and the descriptor of a method without a generic signature
(`methodLine_injective`), whatever its modifiers are.
-/
import ApiSurface.Proofs.Descriptor.Unambiguous
import ApiSurface.Snapshot.Block

namespace ApiSurface

open Descriptor

/-- A method is known by its descriptor alone: it has no generic signature, its name is an
identifier or that of constructors, and in its descriptor all names are identifiers and every
class lies in a package. A constructor has no result. -/
structure MethodRecord.IsPlain (m : MethodRecord) : Prop where
  /-- An empty signature is none. -/
  signature : m.signature.filter (· != "") = none
  name : m.name = constructorName ∨ IsWord m.name.toList
  descriptor : ∃ (parameters : List JavaType) (result : JavaType),
    (∀ t ∈ parameters, t.IsPlain) ∧ result.IsPlain ∧
      (m.name = constructorName → result = .primitive .void) ∧
      m.descriptor.toList = '(' :: parameters.flatMap JavaType.spell ++ ')' :: result.spell

namespace Snapshot

/-! ## 1. The text of a line -/

/-- The words before the name of a method. -/
def wordsBefore (m : MethodRecord) (result : String) : List String :=
  Flags.keywords Flags.methodKeywords m.modifiers ++ if m.isConstructor then [] else [result]

/-- The line of a method with given types. -/
def lineOf (m : MethodRecord) (types : MethodText) : String :=
  words (wordsBefore m types.result ++ [m.name ++ "(" ++ listed types.parameters ++ ")"])

/-- The line of a method is cut at its first parenthesis. -/
theorem toList_lineOf (m : MethodRecord) (types : MethodText) :
    (lineOf m types).toList =
      [' '].intercalate ((wordsBefore m types.result ++ [m.name]).map String.toList) ++
        '(' :: ([',', ' '].intercalate (types.parameters.map String.toList) ++ [')']) := by
  have hlast : (m.name ++ "(" ++ listed types.parameters ++ ")").toList =
      m.name.toList ++
        '(' :: ([',', ' '].intercalate (types.parameters.map String.toList) ++ [')']) := by
    simp [listed]
  rw [lineOf, words, String.toList_intercalate, List.map_append, List.map_append, List.map_singleton,
    List.map_singleton, hlast, intercalate_concat_append]
  rfl

/-- Where the descriptor of a method can be read, that makes its line. -/
theorem methodLine_of_spelled {m : MethodRecord} (h : m.signature.filter (· != "") = none)
    {t : MethodType} (ht : t.SpelledBy m.descriptor) :
    (methodLine m).outcome =
      .ok (lineOf m (t.texts.withVarargs (Flags.has m.modifiers Flags.isVarargs))) := by
  have hread : renderedMethod m.descriptor (Flags.has m.modifiers Flags.isVarargs) =
      .ok (t.texts.withVarargs (Flags.has m.modifiers Flags.isVarargs)) :=
    renderedMethod_eq_ok.mpr ⟨t, ht, rfl⟩
  rw [methodLine, Report.outcome_bind, typesOf]
  rw [h, hread, lineOf, wordsBefore]
  rfl

/-! ## 2. Reading a line back -/

/-- The descriptor of a plain method spells a type. -/
theorem exists_spelledBy {m : MethodRecord} (h : m.IsPlain) :
    ∃ t : MethodType, (∀ p ∈ t.parameters, p.IsPlain) ∧ t.result.IsPlain ∧
      (m.name = constructorName → t.result = .primitive .void) ∧
      m.descriptor.toList = '(' :: t.parameters.flatMap JavaType.spell ++ ')' :: t.result.spell ∧
      t.SpelledBy m.descriptor := by
  obtain ⟨parameters, result, hparameters, hresult, hconstructor, htext⟩ := h.descriptor
  refine ⟨⟨[], parameters, result⟩, hparameters, hresult, hconstructor, htext, ?_⟩
  refine ⟨⟨⟨by simp, .nil⟩, fun p hp => (hparameters p hp).isWellFormed,
    hresult.isWellFormed⟩, [], .absent, [], ?_, .inl rfl⟩
  rw [List.append_nil, htext]
  rfl

/-- No word up to the name of a method is empty, or has a blank or a parenthesis. -/
theorem forall_mem_wordsBefore {m : MethodRecord}
    (hname : m.name = constructorName ∨ IsWord m.name.toList) {result : JavaType}
    (hresult : result.IsPlain) :
    ∀ w ∈ (wordsBefore m (String.ofList result.render) ++ [m.name]).map String.toList,
      (w ≠ [] ∧ ' ' ∉ w) ∧ '(' ∉ w := by
  have hkeywords : ∀ e ∈ Flags.methodKeywords,
      (e.2.toList ≠ [] ∧ ' ' ∉ e.2.toList) ∧ '(' ∉ e.2.toList := by decide
  intro w hw
  obtain ⟨s, hs, rfl⟩ := List.mem_map.mp hw
  rw [wordsBefore, List.mem_append, List.mem_append, List.mem_singleton] at hs
  rcases hs with (hs | hs) | rfl
  · obtain ⟨e, he, rfl⟩ := List.mem_map.mp hs
    exact hkeywords e (List.mem_filter.mp he).1
  · split_ifs at hs
    · cases hs
    · rw [List.mem_singleton.mp hs, String.toList_ofList]
      exact ⟨⟨hresult.ne_nil, hresult.not_mark (by decide) (by decide)⟩,
        hresult.not_mark (by decide) (by decide)⟩
  · rcases hname with hname | hname
    · rw [hname]
      decide
    · exact ⟨⟨hname.ne_nil, fun hc => hname.not_mark _ hc (by decide)⟩,
        fun hc => hname.not_mark _ hc (by decide)⟩

/-- The words of a line tell the name of its method, and the type of the result unless the
method is a constructor. -/
theorem name_and_result_of_words {a b : MethodRecord} {ra rb : String}
    (h : wordsBefore a ra ++ [a.name] = wordsBefore b rb ++ [b.name]) :
    a.name = b.name ∧ (a.name ≠ constructorName → ra = rb) := by
  obtain ⟨hbefore, hname⟩ := List.append_inj' h rfl
  have hname : a.name = b.name := (List.cons.inj hname).1
  refine ⟨hname, fun hne => ?_⟩
  have ha : a.isConstructor = false := beq_eq_false_iff_ne.mpr hne
  have hb : b.isConstructor = false := beq_eq_false_iff_ne.mpr (hname ▸ hne)
  rw [wordsBefore, wordsBefore, ha, hb] at hbefore
  exact (List.cons.inj (List.append_inj' hbefore rfl).2).1

/-- Every plain method has a line, and two of them that have the same one have the same name
and the same descriptor. -/
theorem methodLine_injective {a b : MethodRecord} (ha : a.IsPlain) (hb : b.IsPlain) :
    (∃ line, (methodLine a).outcome = .ok line) ∧
      ((methodLine a).outcome = (methodLine b).outcome →
        a.name = b.name ∧ a.descriptor = b.descriptor) := by
  obtain ⟨ta, hpa, hra, hca, hta, hspella⟩ := exists_spelledBy ha
  obtain ⟨tb, hpb, hrb, hcb, htb, hspellb⟩ := exists_spelledBy hb
  have hlinea := methodLine_of_spelled ha.signature hspella
  have hlineb := methodLine_of_spelled hb.signature hspellb
  refine ⟨⟨_, hlinea⟩, fun hsame => ?_⟩
  rw [hlinea, hlineb, Except.ok.injEq, ← String.toList_inj, toList_lineOf, toList_lineOf] at hsame
  have hwa := forall_mem_wordsBefore ha.name hra
  have hwb := forall_mem_wordsBefore hb.name hrb
  -- Neither row of words has a parenthesis, so both lines are cut at the same place.
  obtain ⟨hwords, htypes⟩ := append_cons_inj_of_front
    (not_mem_intercalate (by decide) fun w hw => (hwa w hw).2)
    (not_mem_intercalate (by decide) fun w hw => (hwb w hw).2) hsame
  have hwords := intercalate_injective (fun w hw => (hwa w hw).1) (fun w hw => (hwb w hw).1) hwords
  obtain ⟨hname, hresult⟩ :=
    name_and_result_of_words (List.map_injective_iff.mpr (fun _ _ => String.toList_injective) hwords)
  have htypes := intercalate_injective (List.forall_mem_map.mpr (forall_mem_parameters hpa))
    (List.forall_mem_map.mpr (forall_mem_parameters hpb)) (List.append_cancel_right htypes)
  have hparameters : ta.parameters = tb.parameters := parameters_injective hpa hpb
    (List.map_injective_iff.mpr (fun _ _ => String.toList_injective) htypes)
  have hresult : ta.result = tb.result := by
    by_cases hconstructor : a.name = constructorName
    · rw [hca hconstructor, hcb (hname ▸ hconstructor)]
    · exact hra.render_injective hrb (String.ofList_injective (hresult hconstructor))
  exact ⟨hname, by rw [← String.toList_inj, hta, htb, hparameters, hresult]⟩

namespace OverloadSample

/-- A public method named `of`. -/
def method (modifiers : Nat) (descriptor : String) : MethodRecord where
  name := "of"
  descriptor := descriptor
  modifiers := Flags.isPublic ||| modifiers
  owner := "p.A"
  annotations := []
  signature := none

/-- It takes any objects. -/
def many : MethodRecord := method Flags.isVarargs "([Ljava/lang/Object;)V"

/-- It takes an array. -/
def one : MethodRecord := method 0 "([[Ljava/lang/Object;)V"

theorem isWord {name : List Char} (hne : name ≠ []) (hmarks : name.all fun c => !marks.contains c)
    (hkeyword : name ∉ Primitive.all.map fun p => p.keyword.toList) : IsWord name where
  ne_nil := hne
  not_mark := by simpa using List.all_eq_true.mp hmarks
  not_keyword p e := hkeyword (e ▸ List.mem_map_of_mem (by cases p <;> decide))

theorem isPlain_object :
    (JavaType.declared (.last "java/lang/Object".toList .absent)).IsPlain := by
  refine .declared ⟨["java".toList, "lang".toList, "Object".toList], by decide, ?_, by decide⟩
  simp only [List.forall_mem_cons]
  exact ⟨isWord (by decide) (by decide) (by decide), isWord (by decide) (by decide) (by decide),
    isWord (by decide) (by decide) (by decide), nofun⟩

theorem isPlain_method {modifiers : Nat} {descriptor : String} {parameter : JavaType}
    (hparameter : parameter.IsPlain)
    (hdescriptor : descriptor.toList = '(' :: parameter.spell ++ [')', 'V']) :
    (method modifiers descriptor).IsPlain where
  signature := rfl
  name := by
    have hof : IsWord "of".toList := isWord (by decide) (by decide) (by decide)
    exact .inr hof
  descriptor := by
    refine ⟨[parameter], .primitive .void, ?_, .primitive _, fun _ => rfl, ?_⟩
    · simpa using hparameter
    · rw [method, hdescriptor, List.flatMap_singleton]
      rfl

end OverloadSample

open OverloadSample in
/-- A method with any count of arguments and one with an array of arrays have two lines. -/
theorem methodLine_injective_of_overloads :
    many.IsPlain ∧ one.IsPlain ∧ (methodLine many).outcome ≠ (methodLine one).outcome := by
  have hmany : many.IsPlain := isPlain_method (.array isPlain_object) (by decide)
  have hone : one.IsPlain := isPlain_method (.array (.array isPlain_object)) (by decide)
  refine ⟨hmany, hone, fun hsame => ?_⟩
  have hdescriptor := ((methodLine_injective hmany hone).2 hsame).2
  revert hdescriptor
  decide

end Snapshot

end ApiSurface
