/-
ApiSurface.Proofs.ClassFile.Takes — what a reader takes from the front of bytes.

`Takes r l a` says that the reader `r` takes exactly the bytes `l`, whatever follows
them, and gives `a`. Readers in a row take their bytes in a row (`Takes.bind`), so a
statement about a format is put together along the structure of its reader, and no
proof ever has to say where a part ends.

Numbers are written by `bigEndian`, in a fixed count of bytes with the most
significant one first.
-/
import ApiSurface.ClassFile.Reader
import Mathlib.Algebra.Order.Ring.Nat
import Mathlib.Data.List.Forall2

namespace ApiSurface

namespace Reader

variable {α β : Type}

/-! ## 1. Readers in a row -/

/-- A reader takes exactly the given bytes and gives `a`. -/
def Takes (r : Reader α) (l : List UInt8) (a : α) : Prop :=
  ∀ rest, r (l ++ rest) = .ok (a, rest)

theorem takes_pure (a : α) : (pure a : Reader α).Takes [] a := fun _ => rfl

/-- What comes next is left with the bytes behind those that were taken. -/
theorem Takes.bind_append {r : Reader α} {l : List UInt8} {a : α} (hr : r.Takes l a)
    (f : α → Reader β) (rest : List UInt8) : (r >>= f) (l ++ rest) = f a rest := by
  change Except.bind (r (l ++ rest)) (fun p => f p.1 p.2) = f a rest
  rw [hr rest]
  rfl

/-- Two readers in a row take their bytes in a row. -/
theorem Takes.bind {r : Reader α} {f : α → Reader β} {l l' : List UInt8} {a : α} {b : β}
    (hr : r.Takes l a) (hf : (f a).Takes l' b) : (r >>= f).Takes (l ++ l') b := by
  intro rest
  rw [List.append_assoc, hr.bind_append]
  exact hf rest

/-- A step that takes nothing leaves the bytes to the one behind it. -/
theorem Takes.bind_nil {r : Reader α} {f : α → Reader β} {l : List UInt8} {a : α} {b : β}
    (hr : r.Takes [] a) (hf : (f a).Takes l b) : (r >>= f).Takes l b := hr.bind hf

/-- A result that is computed from what was taken. -/
theorem Takes.bind_pure {r : Reader α} {f : α → β} {l : List UInt8} {a : α} (hr : r.Takes l a) :
    (r >>= fun a => Pure.pure (f a)).Takes l (f a) := by
  have h := hr.bind (f := fun a => Pure.pure (f a)) (takes_pure (f a))
  rwa [List.append_nil] at h

theorem Takes.map {r : Reader α} {f : α → β} {l : List UInt8} {a : α} (hr : r.Takes l a) :
    (f <$> r).Takes l (f a) := by
  rw [map_eq_pure_bind]
  exact hr.bind_pure

theorem takes_look {e : Except Malformed α} {a : α} (h : e = .ok a) : (look e).Takes [] a := by
  rw [h]
  exact takes_pure a

theorem takes_typed {e : Except IllTyped α} {a : α} (h : e = .ok a) : (typed e).Takes [] a := by
  rw [h]
  exact takes_pure a

/-- A choice that reads nothing. -/
theorem takes_lift {e : Except ClassFault α} {a : α} (h : e = .ok a) :
    Takes (StateT.lift e) [] a := by
  intro rest
  rw [h]
  rfl

/-- Without anything behind them, the bytes are all that is read. -/
theorem Takes.run {r : Reader α} {l : List UInt8} {a : α} (h : r.Takes l a) :
    StateT.run r l = .ok (a, []) := by
  have h' := h []
  rwa [List.append_nil] at h'

/-! ## 2. Bytes and numbers -/

theorem hasAtLeast_iff {n : Nat} {l : List UInt8} : hasAtLeast n l = true ↔ n ≤ l.length := by
  rw [hasAtLeast, Bool.or_eq_true, beq_iff_eq, Bool.not_eq_true', List.isEmpty_eq_false_iff, Ne,
    List.drop_eq_nil_iff]
  omega

theorem takes_bytes (l : List UInt8) : (bytes l.length).Takes l l := by
  intro rest
  simp [bytes, hasAtLeast_iff]

/-- A number in `size` bytes, the most significant first. -/
def bigEndian : Nat → Nat → List UInt8
  | 0, _ => []
  | size + 1, n => bigEndian size (n / 256) ++ [UInt8.ofNat n]

@[simp] theorem length_bigEndian (size n : Nat) : (bigEndian size n).length = size := by
  induction size generalizing n with
  | zero => rfl
  | succ size ih => simp [bigEndian, ih]

theorem ofBigEndian_append (l : List UInt8) (b : UInt8) :
    ofBigEndian (l ++ [b]) = ofBigEndian l * 256 + b.toNat := by
  simp [ofBigEndian]

/-- Bytes spell the number that they were written for. -/
theorem ofBigEndian_bigEndian {size n : Nat} (h : n < 256 ^ size) :
    ofBigEndian (bigEndian size n) = n := by
  induction size generalizing n with
  | zero =>
    have hn : n = 0 := by simpa using h
    subst hn
    rfl
  | succ size ih =>
    have hn : n / 256 < 256 ^ size := by
      rw [Nat.div_lt_iff_lt_mul (by decide), ← Nat.pow_succ]
      exact h
    have hb : (UInt8.ofNat n).toNat = n % 256 := by simp
    rw [bigEndian, ofBigEndian_append, ih hn, hb]
    omega

theorem takes_number {size n : Nat} (h : n < 256 ^ size) :
    (number size).Takes (bigEndian size n) n := by
  have hl := takes_bytes (bigEndian size n)
  rw [length_bigEndian] at hl
  have hb : (number size).Takes (bigEndian size n) (ofBigEndian (bigEndian size n)) :=
    hl.bind_pure
  rwa [ofBigEndian_bigEndian h] at hb

theorem takes_u1 {n : Nat} (h : n < 2 ^ 8) : u1.Takes (bigEndian 1 n) n :=
  takes_number (by simpa using h)

theorem takes_u2 {n : Nat} (h : n < 2 ^ 16) : u2.Takes (bigEndian 2 n) n :=
  takes_number (by simpa using h)

theorem takes_u4 {n : Nat} (h : n < 2 ^ 32) : u4.Takes (bigEndian 4 n) n :=
  takes_number (by simpa using h)

/-! ## 3. Things in a row -/

theorem takes_many {one : Reader α} {chunks : List (List UInt8)} {items : List α}
    (h : List.Forall₂ (fun a l => one.Takes l a) items chunks) :
    (many items.length one).Takes chunks.flatten items := by
  induction h with
  | nil => exact takes_pure []
  | @cons a l items chunks ha _ ih =>
    have hrest : (do let rest ← many items.length one; pure (a :: rest) : Reader (List α)).Takes
        (chunks.flatten ++ []) (a :: items) := ih.bind (takes_pure (a :: items))
    rw [List.append_nil] at hrest
    exact ha.bind hrest

/-- A count and that many things. -/
theorem takes_counted {one : Reader α} {chunks : List (List UInt8)} {items : List α}
    (hcount : items.length < 2 ^ 16)
    (h : List.Forall₂ (fun a l => one.Takes l a) items chunks) :
    (counted one).Takes (bigEndian 2 items.length ++ chunks.flatten) items :=
  (takes_u2 hcount).bind (takes_many h)

end Reader

/-! ## 4. Look-ups -/

/-- What is looked up with an expectation is there. -/
theorem Pool.entry?_of_entry {pool : Pool} {index : Nat} {expected : List Tag} {c : Constant}
    (h : pool.entry index expected = .ok c) : pool.entry? index = some c := by
  unfold Pool.entry at h
  split at h
  · cases h
  · next c' heq =>
    split_ifs at h
    cases h
    exact heq

end ApiSurface
