/-
ApiSurface.Proofs.ClassFile.Slots — which entries a constant pool is read as.

The bytes of a pool do not say where its entries begin. Each entry tells by its tag how many
bytes it takes, and how many indices, and the next one follows on both sides; an entry that
takes two indices may be the last one and go beyond the count. Nothing is left open all the
same: bytes that are read as a pool are those of exactly one row of entries
(`Pool.read_slots`), since what is encoded is read back, whatever follows it, and nothing else
is read (`Constant.Encoded.takes`, `Constant.read_encoded`).

A look-up then finds the entry with the given index (`Pool.Finds`), or fails if it asks for
other tags (`Pool.Refuses`). At an index that is no entry's it fails whatever it asks for, and
these are zero, the second one of an entry of two, and those from the count on.
-/
import ApiSurface.Proofs.ClassFile.Pool
import ApiSurface.Proofs.ClassFile.Texts

namespace ApiSurface

open Number (Double)
open Reader

/-! ## 1. Entries -/

theorem Constant.Encoded.ne_nil {c : Constant} {l : List UInt8} (h : c.Encoded l) : l ≠ [] := by
  rintro rfl
  have hread := h.takes 0 []
  cases hread

/-- What stands in front of some bytes in the encoding of entries is not open to choice. -/
theorem Constant.Encoded.unique {c c' : Constant} {l l' rest rest' : List UInt8}
    (h : c.Encoded l) (h' : c'.Encoded l') (heq : l ++ rest = l' ++ rest') :
    c = c' ∧ rest = rest' := by
  have hread := h.takes 0 rest
  rw [heq, h'.takes 0 rest'] at hread
  cases hread
  exact ⟨rfl, rfl⟩

theorem Constant.encoded_integer {k : Nat} (hk : k < 2 ^ 32) :
    (Constant.integer (signed 32 k)).Encoded (bigEndian 1 Tag.integer.code ++ bigEndian 4 k) := by
  obtain ⟨hlow, hhigh, hbits⟩ := signed_bounds hk
  have hw := Constant.Written.integer hlow hhigh
  rw [hbits] at hw
  exact .written hw

theorem Constant.encoded_long {k : Nat} (hk : k < 2 ^ 64) :
    (Constant.long (signed 64 k)).Encoded (bigEndian 1 Tag.long.code ++ bigEndian 8 k) := by
  obtain ⟨hlow, hhigh, hbits⟩ := signed_bounds hk
  have hw := Constant.Written.long hlow hhigh
  rw [hbits] at hw
  exact .written hw

/-- An entry that is read from a number behind its tag. -/
theorem Constant.ensures_number {all : List UInt8} {tag : Tag} {size : Nat} {f : Nat → Constant}
    (hf : ∀ k < 256 ^ size, (f k).Encoded (bigEndian 1 tag.code ++ bigEndian size k)) :
    (do return f (← number size) : Reader Constant).Ensures (bigEndian 1 tag.code ++ · = all)
      fun c rest => ∃ front, c.Encoded front ∧ all = front ++ rest := by
  refine (ensures_number_lt size).bind fun k => ensures_pure.mono (fun rest h => ?_) fun _ _ => id
  obtain ⟨hk, rfl⟩ := h
  exact ⟨_, hf k hk, (List.append_assoc _ _ _).symm⟩

/-- What is read as an entry is the encoding of it. -/
theorem Constant.read_encoded {all : List UInt8} (index : Nat) :
    (Constant.read index).Ensures (· = all) fun c rest =>
      ∃ front, c.Encoded front ∧ all = front ++ rest := by
  refine (Reader.ensures_number 1).bind fun code => ?_
  cases htag : Tag.ofCode? code with
  | none => exact ensures_fail _
  | some tag =>
    obtain rfl := Tag.code_of_ofCode? htag
    cases tag with
    | utf8 =>
      refine (ensures_number_lt 2).bind fun size => (ensures_utf8Text size).bind fun s => ?_
      refine ensures_pure.mono (fun rest h => ?_) fun _ _ => id
      obtain ⟨spelled, rfl, hs, hsize, rfl⟩ := h
      exact ⟨_, .utf8 hs hsize, by simp⟩
    | integer => exact ensures_number fun _ hk => encoded_integer hk
    | float => exact ensures_number fun _ hk => .written (.float hk)
    | long => exact ensures_number fun _ hk => encoded_long hk
    | double => exact ensures_number fun _ hk => .written (.double hk)
    | classRef => exact ensures_number fun _ hk => .written (.classRef hk)
    | string => exact ensures_number fun _ hk => .written (.string hk)
    | nameAndType =>
      refine (ensures_number_lt 2).bind fun n => (ensures_number_lt 2).bind fun m => ?_
      refine ensures_pure.mono (fun rest h => ?_) fun _ _ => id
      obtain ⟨hm, hn, rfl⟩ := h
      exact ⟨_, .written (.nameAndType hn hm), by simp⟩
    | _ =>
      refine (ensures_bytes _).bind fun payload => ?_
      refine ensures_pure.mono (fun rest h => ?_) fun _ _ => id
      obtain ⟨hsize, rfl⟩ := h
      exact ⟨_, .written (.uninspected (by decide) hsize), (List.append_assoc _ _ _).symm⟩

namespace Pool

/-! ## 2. Rows of entries -/

/-- Bytes are those of some entries which take all indices from one to a count: each entry begins
below the count, and the last one ends there or goes beyond it. -/
structure Spells (count : Nat) (es : List Constant) (l : List UInt8) : Prop where
  encoded : ∃ chunks, List.Forall₂ Constant.Encoded es chunks ∧ l = chunks.flatten
  index_lt : ∀ i c, Holds es i c → i < count
  count_le : count ≤ 1 + width es

/-- Bytes are those of one row of entries at most. -/
theorem eq_of_encoded {es es' : List Constant} {chunks chunks' : List (List UInt8)}
    (h : List.Forall₂ Constant.Encoded es chunks) (h' : List.Forall₂ Constant.Encoded es' chunks')
    (heq : chunks.flatten = chunks'.flatten) : es = es' := by
  induction h generalizing es' chunks' with
  | nil =>
    cases h' with
    | nil => rfl
    | cons hc => exact absurd (List.append_eq_nil_iff.mp heq.symm).1 hc.ne_nil
  | cons hc _ ih =>
    cases h' with
    | nil => exact absurd (List.append_eq_nil_iff.mp heq).1 hc.ne_nil
    | cons hc' h' =>
      obtain ⟨rfl, hrest⟩ := hc.unique hc' heq
      rw [ih h' hrest]

/-- Reading on from an index takes the bytes of some entries and puts them behind the slots read
before. It begins each of these below the count, and stops once the count is reached. -/
theorem readFrom_ensures_entries {all : List UInt8} (count index : Nat)
    (slots : Array (Option Constant)) :
    (readFrom count index slots).Ensures (· = all) fun slots' rest =>
      ∃ es chunks, List.Forall₂ Constant.Encoded es chunks ∧ all = chunks.flatten ++ rest ∧
        slots'.toList = (slots.toList ++ es.flatMap fun c => (slotsOf c).toList) ∧
          (∀ i c, Holds es i c → index + i ≤ count) ∧ count ≤ index + width es := by
  intro l slots' rest hl h
  subst hl
  fun_induction readFrom count index slots generalizing l with
  | case1 index slots hlt ih2 ih1 =>
    obtain ⟨⟨c, l'⟩, hc, hbehind⟩ := bind_eq_ok.mp h
    obtain ⟨front, hfront, rfl⟩ := Constant.read_encoded index l c l' rfl hc
    have hnext : ∃ es chunks, List.Forall₂ Constant.Encoded es chunks ∧
        l' = chunks.flatten ++ rest ∧
        slots'.toList = ((slots ++ slotsOf c).toList ++ es.flatMap fun c => (slotsOf c).toList) ∧
          (∀ i d, Holds es i d → index + c.tag.width + i ≤ count) ∧
            count ≤ index + c.tag.width + width es := by
      dsimp only at hbehind
      split_ifs at hbehind with hw
      · rw [hw]
        exact ih2 c l' hbehind
      · rw [(Tag.width_eq c.tag).resolve_right hw]
        exact ih1 c l' hbehind
    obtain ⟨es, chunks, hes, rfl, hslots, hindex, hcount⟩ := hnext
    refine ⟨c :: es, front :: chunks, .cons hfront hes, by simp, by simp [hslots], ?_, ?_⟩
    · intro i d hd
      rcases holds_cons.mp hd with ⟨rfl, -⟩ | ⟨j, hj, rfl⟩
      · exact hlt
      · have := hindex j d hj
        omega
    · rw [width_cons]
      omega
  | case2 index slots hge =>
    cases h
    exact ⟨[], [], .nil, rfl, by simp, fun i c h => absurd h not_holds_nil, Nat.not_lt.mp hge⟩

/-! ## 3. Look-ups -/

/-- Of the indices that entries take, each is the first or the second one of an entry. -/
theorem exists_holds_of_le {es : List Constant} {i : Nat} (hpos : 0 < i) (hi : i ≤ width es) :
    ∃ j c, Holds es j c ∧ (i = j ∨ c.tag.width = 2 ∧ i = j + 1) := by
  induction es generalizing i with
  | nil =>
    have hwidth : width [] = 0 := rfl
    omega
  | cons e es ih =>
    rw [width_cons] at hi
    by_cases hle : i ≤ e.tag.width
    · refine ⟨1, e, holds_cons_one.mpr rfl, ?_⟩
      have := Tag.width_eq e.tag
      omega
    · obtain ⟨j, c, hj, hjc⟩ := ih (i := i - e.tag.width) (by omega) (by omega)
      refine ⟨e.tag.width + j, c, (holds_cons_add hj.pos).mpr hj, ?_⟩
      omega

/-- The look-ups at an index give what is stored in an entry. -/
structure Finds (pool : Pool) (i : Nat) (c : Constant) : Prop where
  entry : ∀ expected : List Tag, expected.contains c.tag = true → pool.entry i expected = .ok c
  utf8 : ∀ s, c = .utf8 s → pool.utf8 i = .ok s
  className : ∀ text, c = .classRef text → pool.className i = binaryName <$> pool.utf8 text
  nameAndType : ∀ name descriptor, c = .nameAndType name descriptor →
    pool.nameAndType i = do return (← pool.utf8 name, ← pool.utf8 descriptor)
  scalar_integer : ∀ n, c = .integer n ∨ c = .long n → pool.scalar i = .ok (.integer n)
  scalar_real : ∀ x, c = .float x ∨ c = .double x → pool.scalar i = .ok (.real x)
  scalar_text : ∀ s, c = .utf8 s → pool.scalar i = .ok (.text s)
  scalar_string : ∀ text, c = .string text → pool.scalar i = .text <$> pool.utf8 text

/-- The look-ups at an index that ask for refused tags fail. The name of a class that may be
missing is not looked up at zero. -/
structure Refuses (pool : Pool) (i : Nat) (refused : List Tag → Prop)
    (error : List Tag → Malformed) : Prop where
  entry : ∀ expected, refused expected → pool.entry i expected = .error (error expected)
  utf8 : refused [.utf8] → pool.utf8 i = .error (error [.utf8])
  className : refused [.classRef] → pool.className i = .error (error [.classRef])
  optionalClassName : i ≠ 0 → refused [.classRef] →
    pool.optionalClassName i = .error (error [.classRef])
  nameAndType : refused [.nameAndType] → pool.nameAndType i = .error (error [.nameAndType])
  scalar : refused scalarTags → pool.scalar i = .error (error scalarTags)

/-- Look-ups in a pool find the entries at their indices. -/
structure Answers (pool : Pool) (count : Nat) (es : List Constant) : Prop where
  /-- At the index of an entry the look-ups that ask for its tag give what is stored in it, -/
  held : ∀ {i c}, Holds es i c → pool.Finds i c
  /-- and those that do not ask for it fail. -/
  wrongTag : ∀ {i c}, Holds es i c →
    pool.Refuses i (fun expected => expected.contains c.tag = false) (.wrongTag i c.tag)
  /-- At other indices every look-up fails. -/
  unheld : ∀ {i}, (∀ c, ¬ Holds es i c) → pool.Refuses i (fun _ => True) fun _ => .noEntry i
  /-- These are zero, those from the count on, and the second ones of entries that take two. -/
  unheld_iff : ∀ i, (∀ c, ¬ Holds es i c) ↔
    i = 0 ∨ count ≤ i ∨ ∃ j c, Holds es j c ∧ c.tag.width = 2 ∧ i = j + 1

theorem finds_of_entry? {pool : Pool} {i : Nat} {c : Constant} (h : pool.entry? i = some c) :
    pool.Finds i c := by
  have hentry : ∀ expected : List Tag, expected.contains c.tag = true →
      pool.entry i expected = .ok c := by
    intro expected ht
    rw [Pool.entry, h]
    exact if_pos ht
  refine ⟨hentry, ?_, ?_, ?_, ?_, ?_, ?_, ?_⟩
  · rintro s rfl
    rw [Pool.utf8, hentry _ rfl]
    rfl
  · rintro text rfl
    rw [Pool.className, hentry _ rfl]
    rfl
  · rintro name descriptor rfl
    rw [Pool.nameAndType, hentry _ rfl]
    rfl
  · rintro n (rfl | rfl) <;> (rw [Pool.scalar, hentry _ rfl]; rfl)
  · rintro x (rfl | rfl) <;> (rw [Pool.scalar, hentry _ rfl]; rfl)
  · rintro s rfl
    rw [Pool.scalar, hentry _ rfl]
    rfl
  · rintro text rfl
    rw [Pool.scalar, hentry _ rfl]
    rfl

/-- All look-ups begin with that of an entry, and fail if it fails. -/
theorem refuses_of_entry {pool : Pool} {i : Nat} {refused : List Tag → Prop}
    {error : List Tag → Malformed}
    (h : ∀ expected, refused expected → pool.entry i expected = .error (error expected)) :
    pool.Refuses i refused error := by
  have hclass : refused [.classRef] → pool.className i = .error (error [.classRef]) := by
    intro ht
    rw [Pool.className, h _ ht]
    rfl
  refine ⟨h, ?_, hclass, ?_, ?_, ?_⟩
  · intro ht
    rw [Pool.utf8, h _ ht]
    rfl
  · intro hi ht
    rw [Pool.optionalClassName, if_neg hi, hclass ht]
    rfl
  · intro ht
    rw [Pool.nameAndType, h _ ht]
    rfl
  · intro ht
    rw [Pool.scalar, h _ ht]
    rfl

theorem unheld_iff {count : Nat} {es : List Constant} {l : List UInt8} (h : Spells count es l)
    (i : Nat) : (∀ c, ¬ Holds es i c) ↔
      i = 0 ∨ count ≤ i ∨ ∃ j c, Holds es j c ∧ c.tag.width = 2 ∧ i = j + 1 := by
  constructor
  · intro hnone
    by_contra hother
    simp only [not_or, Nat.not_le] at hother
    obtain ⟨h0, hlt, hsecond⟩ := hother
    have hle : i ≤ width es := by
      have := h.count_le
      omega
    obtain ⟨j, c, hj, rfl | ⟨hw, rfl⟩⟩ := exists_holds_of_le (Nat.pos_of_ne_zero h0) hle
    · exact hnone c hj
    · exact hsecond ⟨j, c, hj, hw, rfl⟩
  · rintro (rfl | hle | ⟨j, c, hj, hw, rfl⟩) c' hc'
    · exact not_holds_zero hc'
    · have := h.index_lt i c' hc'
      omega
    · exact hj.not_succ hw hc'

theorem answers_of_slots {pool : Pool} {count : Nat} {es : List Constant} {l : List UInt8}
    (h : Spells count es l)
    (hslots : pool.slots.toList = none :: es.flatMap fun c => (slotsOf c).toList) :
    pool.Answers count es where
  held hc := finds_of_entry? ((entry?_eq_some_iff hslots).mpr hc)
  wrongTag hc := refuses_of_entry fun expected ht => by
    rw [Pool.entry, (entry?_eq_some_iff hslots).mpr hc]
    exact if_neg (Bool.eq_false_iff.mp ht)
  unheld {i} hnone := refuses_of_entry fun expected _ => by
    have hempty : pool.entry? i = none := by
      rw [Option.eq_none_iff_forall_ne_some]
      exact fun c hc => hnone c ((entry?_eq_some_iff hslots).mp hc)
    rw [Pool.entry, hempty]
  unheld_iff := unheld_iff h

/-- A pool is read back from the bytes of its entries, whatever follows them. -/
theorem Spells.takes {count : Nat} {es : List Constant} {l : List UInt8} (h : Spells count es l)
    (hcount : count < 2 ^ 16) :
    ∃ pool : Pool, read.Takes (bigEndian 2 count ++ l) pool ∧ pool.Answers count es := by
  obtain ⟨chunks, hchunks, rfl⟩ := h.encoded
  exact ⟨_, takes_encoded hchunks hcount h.index_lt h.count_le, answers_of_slots h rfl⟩

/-- Bytes that are read as a pool with a count are those of exactly one row of entries up to this
count, and the look-ups are those of these entries. -/
theorem read_slots {l rest : List UInt8} {pool : Pool} (h : read.run l = .ok (pool, rest)) :
    ∃ count entries, count < 2 ^ 16 ∧ l = bigEndian 2 count ++ (entries ++ rest) ∧
      ∃ es, Spells count es entries ∧ (∀ es', Spells count es' entries → es' = es) ∧
        pool.Answers count es := by
  obtain ⟨⟨count, l'⟩, hcount, h⟩ := bind_eq_ok.mp h
  obtain ⟨⟨all, rest⟩, hall, h⟩ := bind_eq_ok.mp h
  cases h
  have hu2 : u2.Ensures (· = l) fun k rest => k < 2 ^ 16 ∧ bigEndian 2 k ++ rest = l :=
    ensures_number_lt 2
  obtain ⟨hlt, hl⟩ := hu2 l count l' rfl hcount
  obtain ⟨es, chunks, hes, rfl, hslots, hindex, hle⟩ :=
    readFrom_ensures_entries count 1 #[none] l' all rest rfl hall
  have hspells : Spells count es chunks.flatten :=
    ⟨⟨chunks, hes, rfl⟩, fun i c hc => by have := hindex i c hc; omega, hle⟩
  refine ⟨count, chunks.flatten, hlt, hl.symm, es, hspells, ?_, answers_of_slots hspells hslots⟩
  rintro es' ⟨⟨chunks', hes', heq⟩, -, -⟩
  exact (eq_of_encoded hes hes' heq).symm

/-- The bytes of a text and of a number of two indices, the second one of which is the count. -/
def beyondCount : List UInt8 := [1, 0, 1, 65, 5, 0, 0, 0, 0, 0, 0, 0, 7]

theorem spells_beyondCount : Spells 3 [.utf8 "A", .long 7] beyondCount where
  encoded := ⟨_, .cons (.written (Constant.written_utf8 (by decide)))
    (.cons (.written (.long (by decide) (by decide))) .nil), by decide⟩
  index_lt := by
    intro i c h
    rcases holds_cons.mp h with ⟨rfl, -⟩ | ⟨j, hj, rfl⟩
    · decide
    · rcases holds_cons.mp hj with ⟨rfl, -⟩ | ⟨j', hj', -⟩
      · decide
      · exact absurd hj' not_holds_nil
  count_le := by decide

/-- The pool of these bytes is read with a byte behind it. -/
theorem read_slots_beyondCount :
    ∃ pool, read.run ([0, 3] ++ beyondCount ++ [0xCA]) = .ok (pool, [0xCA]) ∧
      ∃ count entries, count < 2 ^ 16 ∧
        [0, 3] ++ beyondCount ++ [0xCA] = bigEndian 2 count ++ (entries ++ [0xCA]) ∧
          ∃ es, Spells count es entries ∧ (∀ es', Spells count es' entries → es' = es) ∧
            pool.Answers count es := by
  obtain ⟨pool, htakes, -⟩ := spells_beyondCount.takes (by decide)
  have hread : read.run ([0, 3] ++ beyondCount ++ [0xCA]) = .ok (pool, [0xCA]) := htakes [0xCA]
  exact ⟨pool, hread, read_slots hread⟩

end Pool

end ApiSurface
