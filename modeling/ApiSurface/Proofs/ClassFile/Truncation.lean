/-
ApiSurface.Proofs.ClassFile.Truncation — where the bytes of a class end.

No reader looks behind the bytes that it takes (`Reader.Streams`): what follows them does not
matter to it, and where they are cut short, it gets as far as the cut and finds the end of the
bytes there. Readers in a row have this property if each of them has, so a class that is read
from the front of some bytes says itself where it ends. A file that was cut short is never
taken for a smaller class, and bytes behind a class are never taken for a part of it
(`ClassFile.parse_take_append`).

The bodies of attributes are read twice, once as bytes and once for what they hold. Only the
first reading moves on in the file, so the second one is a step that takes nothing.
-/
import ApiSurface.Proofs.ClassFile.RoundTrip
import ApiSurface.Proofs.Outcome

namespace ApiSurface

namespace Reader

variable {α β : Type}

/-! ## 1. Readers in a row -/

/-- If a reader succeeds, it takes some bytes whatever follows them, and any beginning of these
ends too early for it. -/
def Streams (r : Reader α) : Prop :=
  ∀ l a rest, r l = .ok (a, rest) → ∃ front, l = front ++ rest ∧ r.Takes front a ∧
    ∀ cut, cut <+: front → cut ≠ front → r cut = .error (.malformed .truncated)

theorem streams_pure (a : α) : (pure a : Reader α).Streams := by
  intro l a' rest h
  cases h
  refine ⟨[], rfl, takes_pure a, fun cut hcut hne => ?_⟩
  exact absurd (List.prefix_nil.mp hcut) hne

theorem streams_fail (why : Malformed) : (fail why : Reader α).Streams := by
  intro l a rest h
  cases h

theorem streams_look (e : Except Malformed α) : (look e).Streams := by
  cases e with
  | error why => exact streams_fail why
  | ok a => exact streams_pure a

theorem streams_lift (e : Except ClassFault α) : Streams (StateT.lift e) := by
  cases e with
  | error why =>
    intro l a rest h
    cases h
  | ok a => exact streams_pure a

/-- A cut lies in the bytes of the first reader, or behind them in those of the second. -/
theorem Streams.bind {r : Reader α} {f : α → Reader β} (hr : r.Streams)
    (hf : ∀ a, (f a).Streams) : (r >>= f).Streams := by
  intro l b rest h
  obtain ⟨⟨a, l'⟩, ha, hb⟩ := bind_eq_ok.mp h
  obtain ⟨front, rfl, htakes, hcut⟩ := hr l a l' ha
  obtain ⟨front', rfl, htakes', hcut'⟩ := hf a l' b rest hb
  refine ⟨front ++ front', (List.append_assoc _ _ _).symm, htakes.bind htakes', ?_⟩
  intro cut hprefix hne
  change Except.bind (r cut) (fun p => f p.1 p.2) = _
  rcases List.prefix_or_prefix_of_prefix hprefix (List.prefix_append front front') with
    hshort | ⟨cut', rfl⟩
  · by_cases heq : cut = front
    · subst heq
      have hnil : ([] : List UInt8) ≠ front' := by
        rintro rfl
        exact hne (List.append_nil _).symm
      have hend := htakes []
      rw [List.append_nil] at hend
      rw [hend]
      exact hcut' [] (List.nil_prefix) hnil
    · rw [hcut cut hshort heq]
      rfl
  · rw [htakes cut']
    exact hcut' cut' ((List.prefix_append_right_inj front).mp hprefix)
      fun heq => hne (congrArg _ heq)

/-! ## 2. Bytes, numbers, and things in a row -/

theorem streams_bytes (n : Nat) : (bytes n).Streams := by
  intro l front rest h
  unfold bytes at h
  split_ifs at h with hn
  cases h
  have hlen : (l.take n).length = n := List.length_take_of_le (hasAtLeast_iff.mp hn)
  have htakes := takes_bytes (l.take n)
  rw [hlen] at htakes
  refine ⟨l.take n, (List.take_append_drop n l).symm, htakes, fun cut hprefix hne => ?_⟩
  have hlt : cut.length < n := by
    have hle := hprefix.length_le
    have hne' := mt hprefix.eq_of_length hne
    omega
  rw [bytes, if_neg (by rw [hasAtLeast_iff]; omega)]

theorem streams_number (n : Nat) : (number n).Streams :=
  (streams_bytes n).bind fun _ => streams_pure _

theorem streams_u1 : u1.Streams := streams_number 1

theorem streams_u2 : u2.Streams := streams_number 2

theorem streams_u4 : u4.Streams := streams_number 4

theorem streams_many {one : Reader α} (h : one.Streams) (n : Nat) : (many n one).Streams := by
  induction n with
  | zero => exact streams_pure []
  | succ n ih => exact h.bind fun _ => ih.bind fun _ => streams_pure _

theorem streams_counted {one : Reader α} (h : one.Streams) : (counted one).Streams :=
  streams_u2.bind fun n => streams_many h n

end Reader

open Reader

/-! ## 3. The pool -/

theorem Constant.read_streams (index : Nat) : (Constant.read index).Streams := by
  refine streams_u1.bind fun code => ?_
  split
  · exact streams_fail _
  · refine streams_u2.bind fun n => Streams.bind ?_ fun _ => streams_pure _
    refine (streams_bytes n).bind fun spelled => ?_
    split
    · exact streams_pure _
    · exact streams_fail _
  · exact streams_u4.bind fun _ => streams_pure _
  · exact streams_u4.bind fun _ => streams_pure _
  · exact (streams_number 8).bind fun _ => streams_pure _
  · exact (streams_number 8).bind fun _ => streams_pure _
  · exact streams_u2.bind fun _ => streams_pure _
  · exact streams_u2.bind fun _ => streams_pure _
  · exact streams_u2.bind fun _ => streams_u2.bind fun _ => streams_pure _
  · exact (streams_bytes _).bind fun _ => streams_pure _

namespace Pool

theorem readFrom_streams (count index : Nat) (slots : Array (Option Constant)) :
    (readFrom count index slots).Streams := by
  fun_induction readFrom count index slots with
  | case1 index slots hlt ih2 ih1 =>
    refine (Constant.read_streams index).bind fun c => ?_
    split_ifs
    · exact ih2 c
    · exact ih1 c
  | case2 => exact streams_pure _

theorem read_streams : Pool.read.Streams :=
  streams_u2.bind fun count => (readFrom_streams count 1 #[none]).bind fun _ => streams_pure _

theorem streams_name (pool : Pool) : (Reader.name pool).Streams :=
  streams_u2.bind fun _ => streams_look _

end Pool

/-! ## 4. Members and classes -/

variable {pool : Pool}

theorem Attribute.takeAll_streams : (Attribute.takeAll pool).Streams :=
  streams_counted <| pool.streams_name.bind fun _ => streams_u4.bind fun n =>
    (streams_bytes n).bind fun _ => streams_pure _

theorem FieldInfo.read_streams : (FieldInfo.read pool).Streams :=
  streams_u2.bind fun _ => pool.streams_name.bind fun _ => pool.streams_name.bind fun _ =>
    Attribute.takeAll_streams.bind fun _ => streams_lift _

theorem MethodInfo.read_streams : (MethodInfo.read pool).Streams :=
  streams_u2.bind fun _ => pool.streams_name.bind fun _ => pool.streams_name.bind fun _ =>
    Attribute.takeAll_streams.bind fun _ => streams_lift _

namespace ClassFile

theorem read_streams : ClassFile.read.Streams := by
  unfold ClassFile.read
  refine streams_u4.bind fun magic => ?_
  split_ifs
  · refine streams_u2.bind fun minor => streams_u2.bind fun major => ?_
    refine Pool.read_streams.bind fun pool => streams_u2.bind fun flags => ?_
    refine streams_u2.bind fun _ => (streams_look _).bind fun name => ?_
    refine streams_u2.bind fun _ => (streams_look _).bind fun superclass => ?_
    refine (streams_counted (streams_u2.bind fun _ => streams_look _)).bind fun interfaces => ?_
    refine (streams_counted FieldInfo.read_streams).bind fun fields => ?_
    refine (streams_counted MethodInfo.read_streams).bind fun methods => ?_
    exact Attribute.takeAll_streams.bind fun as => streams_lift _
  · intro l c rest h
    cases h

/-- A class that is read from some bytes is read from the first `n` of them. Each beginning of
these `n` bytes is refused as truncated, and whatever follows them, the same class is read. -/
theorem parse_take_append {all : List UInt8} {c : ClassFile} (h : parse all = .ok c) :
    ∃ n ≤ all.length, read.run all = .ok (c, all.drop n) ∧
      (∀ k < n, parse (all.take k) = .error (.malformed .truncated)) ∧
      ∀ more, parse (all.take n ++ more) = .ok c := by
  obtain ⟨⟨c, rest⟩, hread, rfl⟩ := map_eq_ok.mp h
  obtain ⟨front, rfl, htakes, hcut⟩ := read_streams all c rest hread
  refine ⟨front.length, by simp, by rwa [List.drop_left], fun k hk => ?_, fun more => ?_⟩
  · have hshort : (front ++ rest).take k = front.take k := List.take_append_of_le_length hk.le
    have hne : front.take k ≠ front := by
      intro heq
      have hlen := congrArg List.length heq
      rw [List.length_take] at hlen
      omega
    have herror : read.run (front.take k) = .error (.malformed .truncated) :=
      hcut _ (List.take_prefix k front) hne
    rw [hshort, parse, herror]
    rfl
  · have hok : read.run (front ++ more) = .ok (c, more) := htakes more
    rw [List.take_left, parse, hok]
    rfl

/-- A small class with a byte behind it. -/
theorem parse_take_append_small :
    parse (Small.bytes ++ [0xCA]) = .ok Small.file ∧
      ∃ n ≤ (Small.bytes ++ [0xCA]).length,
        read.run (Small.bytes ++ [0xCA]) = .ok (Small.file, (Small.bytes ++ [0xCA]).drop n) ∧
        (∀ k < n, parse ((Small.bytes ++ [0xCA]).take k) = .error (.malformed .truncated)) ∧
        ∀ more, parse ((Small.bytes ++ [0xCA]).take n ++ more) = .ok Small.file := by
  have hread : read.run (Small.bytes ++ [0xCA]) = .ok (Small.file, [0xCA]) :=
    Small.written_bytes.takes [0xCA]
  have hparse : parse (Small.bytes ++ [0xCA]) = .ok Small.file := by
    rw [parse, hread]
    rfl
  exact ⟨hparse, parse_take_append hparse⟩

end ClassFile

end ApiSurface
