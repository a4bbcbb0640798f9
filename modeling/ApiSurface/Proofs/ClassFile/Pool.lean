/-
ApiSurface.Proofs.ClassFile.Pool — reading back a constant pool.

A pool that is read from the bytes of some entries stores each of these under its
index (`Pool.Stores`), and nothing anywhere else (`Pool.entry?_eq_some_iff`): entries of two
indices shift those behind them in the reader as they do in the format. Everything that asks
the pool for a text, a class, a number or a name with a descriptor needs to know no more than
that.
-/
import ApiSurface.Proofs.ClassFile.Format

namespace ApiSurface

open Number (Double)
open Reader

/-! ## 1. Entries -/

theorem Reader.signed_succ (bits k : Nat) :
    signed (bits + 1) k = if (k : Int) < 2 ^ bits then (k : Int) else k - 2 ^ (bits + 1) := by
  have hhalf : ((Nat.pow 2 bits : Nat) : Int) = 2 ^ bits := by simp
  have hwhole : ((Nat.pow 2 (bits + 1) : Nat) : Int) = 2 ^ (bits + 1) := by simp
  rw [signed, Nat.add_sub_cancel, hwhole, ← hhalf]
  simp only [Int.ofNat_lt]

/-- Two's complement gives back every number of its range. -/
theorem Reader.signed_emod {bits : Nat} {n : Int} (hl : -2 ^ bits ≤ n) (hu : n < 2 ^ bits) :
    signed (bits + 1) (n % 2 ^ (bits + 1)).toNat = n := by
  have hpow : (2 : Int) ^ (bits + 1) = 2 * 2 ^ bits := by rw [Int.pow_succ]; omega
  rw [signed_succ, hpow]
  by_cases hn : 0 ≤ n
  · have hmod : n % (2 * 2 ^ bits) = n := Int.emod_eq_of_lt hn (by omega)
    rw [hmod, if_pos (by omega)]
    omega
  · have hmod : n % (2 * 2 ^ bits) = n + 2 * 2 ^ bits := by
      rw [← Int.add_emod_right]
      exact Int.emod_eq_of_lt (by omega) (by omega)
    rw [hmod, if_neg (by omega)]
    omega

/-- Every number that bits spell is in the range of two's complement, and has these bits. -/
theorem Reader.signed_bounds {bits k : Nat} (hk : k < 2 ^ (bits + 1)) :
    -2 ^ bits ≤ signed (bits + 1) k ∧ signed (bits + 1) k < 2 ^ bits ∧
      (signed (bits + 1) k % 2 ^ (bits + 1)).toNat = k := by
  have hpow : (2 : Int) ^ (bits + 1) = 2 * 2 ^ bits := by rw [Int.pow_succ]; omega
  have hk' : (k : Int) < 2 * 2 ^ bits := by
    rw [← hpow]
    exact_mod_cast hk
  rw [signed_succ, hpow]
  split_ifs with hlow
  · have hmod : (k : Int) % (2 * 2 ^ bits) = k := Int.emod_eq_of_lt (by omega) hk'
    rw [hmod]
    omega
  · have hmod : ((k : Int) - 2 * 2 ^ bits) % (2 * 2 ^ bits) = k := by
      rw [← Int.add_emod_right, Int.sub_add_cancel]
      exact Int.emod_eq_of_lt (by omega) hk'
    rw [hmod]
    omega

theorem Tag.code_lt (tag : Tag) : tag.code < 2 ^ 8 := by
  cases tag <;> decide

theorem Reader.takes_utf8Text {spelled : List UInt8} {s : String}
    (h : ModifiedUtf8.decode? spelled = some s) : (utf8Text spelled.length).Takes spelled s := by
  intro rest
  have hread := takes_bytes spelled rest
  change Except.bind (bytes _ (spelled ++ rest)) _ = _
  rw [hread]
  simp only [Except.bind, h]
  rfl

/-- An entry is read back from its bytes, at whatever index it stands. -/
theorem Constant.Written.takes {c : Constant} {l : List UInt8} (h : c.Written l) (index : Nat) :
    (Constant.read index).Takes l c := by
  cases h with
  | @utf8 us hu hlen =>
    refine (takes_u1 Tag.utf8.code_lt).bind ?_
    exact (takes_u2 hlen).bind (takes_utf8Text (ModifiedUtf8.decode?_encode hu)).bind_pure
  | @integer n hl hu =>
    refine (takes_u1 Tag.integer.code_lt).bind ?_
    have hbits : (n % 2 ^ 32).toNat < 2 ^ 32 := by omega
    have hread := (takes_u4 hbits).bind_pure (f := fun b => Constant.integer (signed 32 b))
    rwa [signed_emod hl hu] at hread
  | @float bits hbits =>
    refine (takes_u1 Tag.float.code_lt).bind ?_
    exact (takes_u4 hbits).bind_pure
  | @long n hl hu =>
    refine (takes_u1 Tag.long.code_lt).bind ?_
    have hbits : (n % 2 ^ 64).toNat < 256 ^ 8 := by omega
    have hread := (takes_number hbits).bind_pure (f := fun b => Constant.long (signed 64 b))
    rwa [signed_emod hl hu] at hread
  | @double bits hbits =>
    refine (takes_u1 Tag.double.code_lt).bind ?_
    exact (takes_number hbits).bind_pure
  | @classRef name hname =>
    refine (takes_u1 Tag.classRef.code_lt).bind ?_
    exact (takes_u2 hname).bind_pure
  | @string text htext =>
    refine (takes_u1 Tag.string.code_lt).bind ?_
    exact (takes_u2 htext).bind_pure
  | @nameAndType name descriptor hname hdescriptor =>
    refine (takes_u1 Tag.nameAndType.code_lt).bind ?_
    exact (takes_u2 hname).bind (takes_u2 hdescriptor).bind_pure
  | @uninspected tag payload htag hlen =>
    refine (takes_u1 tag.code_lt).bind ?_
    have hread := (takes_bytes payload).bind_pure (f := fun b => Constant.uninspected tag b)
    rw [hlen] at hread
    rw [Tag.ofCode?_code]
    cases tag <;> first | exact hread | exact absurd (by decide) htag

/-- The bytes of an entry: those the format writes, and for a text any bytes that spell it. -/
inductive Constant.Encoded : Constant → List UInt8 → Prop where
  | utf8 {s : String} {spelled : List UInt8} : ModifiedUtf8.decode? spelled = some s →
      spelled.length < 2 ^ 16 → Encoded (.utf8 s)
        (bigEndian 1 Tag.utf8.code ++ (bigEndian 2 spelled.length ++ spelled))
  | written {c : Constant} {l : List UInt8} : c.Written l → Encoded c l

theorem Constant.Encoded.takes {c : Constant} {l : List UInt8} (h : c.Encoded l) (index : Nat) :
    (Constant.read index).Takes l c := by
  cases h with
  | @utf8 s spelled hs hlen =>
    refine (takes_u1 Tag.utf8.code_lt).bind ?_
    exact (takes_u2 hlen).bind (takes_utf8Text hs).bind_pure
  | written hw => exact hw.takes index

/-! ## 2. The pool -/

theorem Tag.width_eq (tag : Tag) : tag.width = 1 ∨ tag.width = 2 := by
  cases tag <;> decide

theorem Tag.width_pos (tag : Tag) : 0 < tag.width := by
  cases tag <;> decide

namespace Pool

theorem width_cons (e : Constant) (es : List Constant) : width (e :: es) = e.tag.width + width es :=
  List.sum_cons

/-- The slots of an entry, as a list. -/
theorem toList_slotsOf (c : Constant) :
    (slotsOf c).toList = if c.tag.width = 2 then [some c, none] else [some c] := by
  unfold slotsOf
  split_ifs <;> rfl

theorem readFrom_of_le {count index : Nat} {slots : Array (Option Constant)}
    (h : count ≤ index) : readFrom count index slots = pure slots := by
  rw [readFrom, if_neg (Nat.not_lt.mpr h)]

/-- One round of reading: an entry, its slots, and as many indices ahead as it takes. -/
theorem readFrom_of_lt {count index : Nat} {slots : Array (Option Constant)}
    (h : index < count) :
    readFrom count index slots = Constant.read index >>= fun c =>
      readFrom count (index + c.tag.width) (slots ++ slotsOf c) := by
  rw [readFrom, if_pos h]
  congr 1
  funext c
  obtain h1 | h2 := Tag.width_eq c.tag
  · rw [if_neg (by omega), h1]
  · rw [if_pos h2, h2]

theorem not_holds_nil {i : Nat} {c : Constant} : ¬ Holds [] i c := by
  rintro ⟨before, after, h, -⟩
  cases before <;> cases h

/-- An entry in front takes the first index, and moves the others up. -/
theorem holds_cons {e : Constant} {es : List Constant} {i : Nat} {c : Constant} :
    Holds (e :: es) i c ↔ (i = 1 ∧ c = e) ∨ ∃ j, Holds es j c ∧ i = e.tag.width + j := by
  constructor
  · rintro ⟨before, after, h, rfl⟩
    cases before with
    | nil =>
      cases h
      exact .inl ⟨rfl, rfl⟩
    | cons _ before =>
      cases h
      refine .inr ⟨1 + width before, ⟨before, after, rfl, rfl⟩, ?_⟩
      rw [width_cons]
      omega
  · rintro (⟨rfl, rfl⟩ | ⟨_, ⟨before, after, rfl, rfl⟩, rfl⟩)
    · exact ⟨[], es, rfl, rfl⟩
    · refine ⟨e :: before, after, rfl, ?_⟩
      rw [width_cons]
      omega

theorem Holds.pos {es : List Constant} {i : Nat} {c : Constant} (h : Holds es i c) : 0 < i := by
  obtain ⟨_, _, _, rfl⟩ := h
  omega

/-- The indices that an entry takes are among those that all take. -/
theorem Holds.add_width_le {es : List Constant} {i : Nat} {c : Constant} (h : Holds es i c) :
    i + c.tag.width ≤ 1 + width es := by
  obtain ⟨before, after, rfl, rfl⟩ := h
  simp only [width, List.map_append, List.map_cons, List.sum_append, List.sum_cons]
  omega

theorem Holds.lt {es : List Constant} {i : Nat} {c : Constant} (h : Holds es i c) :
    i < 1 + width es := by
  have := h.add_width_le
  have := Tag.width_pos c.tag
  omega

theorem not_holds_zero {es : List Constant} {c : Constant} : ¬ Holds es 0 c :=
  fun h => h.pos.ne rfl

theorem holds_cons_one {e : Constant} {es : List Constant} {c : Constant} :
    Holds (e :: es) 1 c ↔ e = c := by
  rw [holds_cons, eq_comm (a := e)]
  refine ⟨?_, fun h => .inl ⟨rfl, h⟩⟩
  rintro (⟨-, h⟩ | ⟨j, hj, h⟩)
  · exact h
  · have := hj.pos
    have := Tag.width_pos e.tag
    omega

theorem holds_cons_add {e : Constant} {es : List Constant} {j : Nat} {c : Constant} (hj : 0 < j) :
    Holds (e :: es) (e.tag.width + j) c ↔ Holds es j c := by
  rw [holds_cons]
  refine ⟨?_, fun h => .inr ⟨j, h, rfl⟩⟩
  rintro (⟨h, -⟩ | ⟨j', h, heq⟩)
  · have := Tag.width_pos e.tag
    omega
  · rwa [Nat.add_left_cancel heq]

/-- The second index of an entry is that of none. -/
theorem Holds.not_succ {es : List Constant} {j : Nat} {c c' : Constant} (h : Holds es j c)
    (hw : c.tag.width = 2) : ¬ Holds es (j + 1) c' := by
  induction es generalizing j with
  | nil => exact fun h' => not_holds_nil h'
  | cons e es ih =>
    rcases holds_cons.mp h with ⟨rfl, rfl⟩ | ⟨j, hj, rfl⟩
    · rw [holds_cons, hw]
      rintro (⟨h', -⟩ | ⟨j, hj, h'⟩)
      · cases h'
      · have := hj.pos
        omega
    · rw [Nat.add_assoc, holds_cons_add (Nat.succ_pos j)]
      exact ih hj

/-- Entries are read back from their bytes, each put into its slots, if they begin below the
count and no other one would. -/
theorem readFrom_takes {es : List Constant} {chunks : List (List UInt8)}
    (h : List.Forall₂ Constant.Encoded es chunks) {count index : Nat}
    (slots : Array (Option Constant)) (hindex : ∀ i c, Holds es i c → index + i ≤ count)
    (hcount : count ≤ index + width es) :
    ∃ all, (readFrom count index slots).Takes chunks.flatten all ∧
      all.toList = slots.toList ++ es.flatMap fun c => (slotsOf c).toList := by
  induction h generalizing index slots with
  | nil =>
    refine ⟨slots, ?_, by simp⟩
    rw [readFrom_of_le (by simpa [width] using hcount)]
    exact takes_pure slots
  | @cons c l es chunks hc _ ih =>
    have hbegins := hindex 1 c (holds_cons_one.mpr rfl)
    have hbehind : ∀ i d, Holds es i d → index + c.tag.width + i ≤ count := by
      intro i d hd
      have := hindex _ d ((holds_cons_add hd.pos).mpr hd)
      omega
    obtain ⟨all, htakes, hall⟩ :=
      ih (slots ++ slotsOf c) hbehind (by rwa [Nat.add_assoc, ← width_cons])
    refine ⟨all, ?_, by simp [hall]⟩
    rw [readFrom_of_lt (by omega), List.flatten_cons]
    exact (hc.takes index).bind htakes

/-- The slots hold each entry in the place of its index, and nothing in the others. -/
theorem getElem?_slots_iff {es : List Constant} {i : Nat} {c : Constant} :
    (es.flatMap fun c => (slotsOf c).toList)[i]? = some (some c) ↔ Holds es (i + 1) c := by
  induction es generalizing i with
  | nil => simp [not_holds_nil]
  | cons e es ih =>
    rw [List.flatMap_cons, toList_slotsOf]
    have hbehind : ∀ i, (es.flatMap fun c => (slotsOf c).toList)[i]? = some (some c) ↔
        Holds (e :: es) (e.tag.width + (i + 1)) c :=
      fun i => by rw [holds_cons_add (Nat.succ_pos i), ih]
    have hfirst : (some (some e) = some (some c)) ↔ Holds (e :: es) 1 c := by
      simp [holds_cons_one]
    obtain hw | hw := Tag.width_eq e.tag
    · rw [if_neg (by omega)]
      rw [hw] at hbehind
      match i with
      | 0 => exact hfirst
      | i + 1 =>
        rw [Nat.add_comm (i + 1) 1, ← hbehind]
        rfl
    · rw [if_pos hw]
      match i with
      | 0 => exact hfirst
      | 1 =>
        have hfront : Holds (e :: es) 1 e := holds_cons_one.mpr rfl
        have hnone : ¬ Holds (e :: es) (1 + 1) c := hfront.not_succ hw
        exact iff_of_false nofun hnone
      | i + 2 =>
        rw [hw] at hbehind
        rw [show i + 2 + 1 = 2 + (i + 1) by omega, ← hbehind]
        rfl

/-- A pool of the slots of some entries finds these, and nothing else. -/
theorem entry?_eq_some_iff {pool : Pool} {es : List Constant}
    (hslots : pool.slots.toList = none :: es.flatMap fun c => (slotsOf c).toList) {i : Nat}
    {c : Constant} : pool.entry? i = some c ↔ Holds es i c := by
  unfold Pool.entry?
  rw [Option.join_eq_some_iff, ← Array.getElem?_toList, hslots]
  cases i with
  | zero => exact iff_of_false nofun not_holds_zero
  | succ i => rw [List.getElem?_cons_succ, getElem?_slots_iff]

/-- A pool stores the given entries, each under its index. -/
structure Stores (pool : Pool) (es : List Constant) : Prop where
  entry? : ∀ {i c}, Holds es i c → pool.entry? i = some c
  width_lt : 1 + width es < 2 ^ 16

/-- A pool is read from the bytes of its entries, if these begin below the count and no other one
would. -/
theorem takes_encoded {es : List Constant} {chunks : List (List UInt8)}
    (h : List.Forall₂ Constant.Encoded es chunks) {count : Nat} (hcount : count < 2 ^ 16)
    (hindex : ∀ i c, Holds es i c → i < count) (hle : count ≤ 1 + width es) :
    Pool.read.Takes (bigEndian 2 count ++ chunks.flatten)
      ⟨(none :: es.flatMap fun c => (slotsOf c).toList).toArray⟩ := by
  have hbelow : ∀ i c, Holds es i c → 1 + i ≤ count := by
    intro i c hc
    have := hindex i c hc
    omega
  obtain ⟨all, htakes, hall⟩ := readFrom_takes h #[none] hbelow hle
  rw [List.cons_append, List.nil_append] at hall
  rw [← hall]
  exact (takes_u2 hcount).bind htakes.bind_pure

/-- A pool is read back from its bytes. -/
theorem Written.takes {es : List Constant} {l : List UInt8} (h : Written es l) :
    ∃ pool : Pool, Pool.read.Takes l pool ∧ pool.Stores es := by
  obtain ⟨hwidth, chunks, hchunks, rfl⟩ := h
  refine ⟨_, takes_encoded (hchunks.imp fun _ _ => .written) hwidth (fun _ _ => Holds.lt)
    (Nat.le_refl _), ?_, hwidth⟩
  exact fun hc => (entry?_eq_some_iff rfl).mpr hc

/-! ## 3. What is stored -/

namespace Stores

variable {pool : Pool} {es : List Constant} (h : pool.Stores es)
include h

/-- Every index of an entry fits in two bytes. -/
theorem lt {i : Nat} {c : Constant} (hc : Holds es i c) : i < 2 ^ 16 :=
  hc.lt.trans h.width_lt

theorem entry {i : Nat} {c : Constant} (hc : Holds es i c) {expected : List Tag}
    (ht : expected.contains c.tag = true) : pool.entry i expected = .ok c := by
  rw [Pool.entry, h.entry? hc]
  simp only [ht, if_true]

theorem utf8 {i : Nat} {s : String} (hs : Holds es i (.utf8 s)) : pool.utf8 i = .ok s := by
  rw [Pool.utf8, h.entry hs rfl]
  rfl

theorem className {i text : Nat} {internal : String} (hc : Holds es i (.classRef text))
    (ht : Holds es text (.utf8 internal)) : pool.className i = .ok (binaryName internal) := by
  rw [Pool.className, h.entry hc rfl]
  change Except.bind (pool.utf8 text) _ = _
  rw [h.utf8 ht]
  rfl

theorem nameAndType {i name descriptor : Nat} {m : String × String}
    (hi : Holds es i (.nameAndType name descriptor)) (hn : Holds es name (.utf8 m.1))
    (hd : Holds es descriptor (.utf8 m.2)) : pool.nameAndType i = .ok m := by
  rw [Pool.nameAndType, h.entry hi rfl]
  change Except.bind (pool.utf8 name) (fun n => Except.bind (pool.utf8 descriptor) fun d => .ok (n, d))
    = _
  rw [h.utf8 hn, h.utf8 hd]
  rfl

theorem scalar_integer {i : Nat} {n : Int} (hi : Holds es i (.integer n)) :
    pool.scalar i = .ok (.integer n) := by
  rw [Pool.scalar, h.entry hi rfl]
  rfl

theorem scalar_long {i : Nat} {n : Int} (hi : Holds es i (.long n)) :
    pool.scalar i = .ok (.integer n) := by
  rw [Pool.scalar, h.entry hi rfl]
  rfl

theorem scalar_float {i : Nat} {x : Double} (hi : Holds es i (.float x)) :
    pool.scalar i = .ok (.real x) := by
  rw [Pool.scalar, h.entry hi rfl]
  rfl

theorem scalar_double {i : Nat} {x : Double} (hi : Holds es i (.double x)) :
    pool.scalar i = .ok (.real x) := by
  rw [Pool.scalar, h.entry hi rfl]
  rfl

theorem scalar_string {i text : Nat} {s : String} (hi : Holds es i (.string text))
    (ht : Holds es text (.utf8 s)) : pool.scalar i = .ok (.text s) := by
  rw [Pool.scalar, h.entry hi rfl]
  change Except.bind (pool.utf8 text) _ = _
  rw [h.utf8 ht]
  rfl

/-- An index of a text is followed to the text. -/
theorem takes_name {s : String} {l : List UInt8} (hs : TextAt es s l) :
    (Reader.name pool).Takes l s := by
  obtain ⟨i, hi, rfl⟩ := hs
  have hread := (takes_u2 (h.lt hi)).bind (f := fun i => look (pool.utf8 i)) (takes_look (h.utf8 hi))
  rwa [List.append_nil] at hread

/-- An index of a number or a text of the pool is followed to it. -/
theorem takes_scalar {i : Nat} {c : Constant} (hi : Holds es i c) {s : Scalar}
    (hs : pool.scalar i = .ok s) : (Reader.scalar pool).Takes (bigEndian 2 i) s := by
  have hread := (takes_u2 (h.lt hi)).bind (f := fun i => look (pool.scalar i)) (takes_look hs)
  rwa [List.append_nil] at hread

/-- An index of a class is that of its name. -/
theorem exists_className {name : String} {l : List UInt8} (hc : ClassAt es name l) :
    ∃ i, i < 2 ^ 16 ∧ l = bigEndian 2 i ∧ pool.className i = .ok name := by
  obtain ⟨i, text, internal, hi, ht, rfl, rfl⟩ := hc
  exact ⟨i, h.lt hi, rfl, h.className hi ht⟩

/-- An index of a class that may be missing. -/
theorem exists_optionalClassName {name? : Option String} {l : List UInt8}
    (hc : OptionalAt (ClassAt es) name? l) :
    ∃ i, i < 2 ^ 16 ∧ l = bigEndian 2 i ∧ pool.optionalClassName i = .ok name? := by
  cases name? with
  | none => exact ⟨0, by decide, hc, rfl⟩
  | some name =>
    obtain ⟨i, text, internal, hi, ht, rfl, rfl⟩ := hc
    refine ⟨i, h.lt hi, rfl, ?_⟩
    rw [optionalClassName, if_neg hi.pos.ne', h.className hi ht]
    rfl

theorem takes_className {name : String} {l : List UInt8} (hc : ClassAt es name l) :
    (do look (pool.className (← u2)) : Reader String).Takes l name := by
  obtain ⟨i, hi, rfl, hname⟩ := h.exists_className hc
  have hread := (takes_u2 hi).bind (f := fun i => look (pool.className i)) (takes_look hname)
  rwa [List.append_nil] at hread

end Stores

end Pool

/-- A count and that many things are read back if each of them is. -/
theorem Counted.takes {α : Type} {P : α → List UInt8 → Prop} {one : Reader α} {items : List α}
    {l : List UInt8} (h : Counted P items l) (hone : ∀ a l, P a l → one.Takes l a) :
    (counted one).Takes l items := by
  obtain ⟨hcount, chunks, hchunks, rfl⟩ := h
  exact takes_counted hcount (hchunks.imp hone)

end ApiSurface
