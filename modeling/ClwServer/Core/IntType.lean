import ClwServer.Core.Cpp
import Mathlib.Algebra.Ring.Int.Defs

/-!
# Integral types

The types of C++ with their ranges. Division truncates; it has a meaning where the quotient is a
value of the type.
-/

namespace Cpp

/-- An integral type, by its least and its greatest value. -/
structure IntType where
  min : ℤ
  max : ℤ
  min_le : min ≤ 0
  le_max : 0 ≤ max

namespace IntType

def int : IntType := ⟨-2 ^ 31, 2 ^ 31 - 1, by decide, by decide⟩
def unsignedInt : IntType := ⟨0, 2 ^ 32 - 1, by decide, by decide⟩
def long : IntType := ⟨-2 ^ 63, 2 ^ 63 - 1, by decide, by decide⟩
def unsignedLong : IntType := ⟨0, 2 ^ 64 - 1, by decide, by decide⟩

/-- The values of a type. -/
@[ext]
structure Val (T : IntType) where
  val : ℤ
  le_val : T.min ≤ val
  val_le : val ≤ T.max

variable {T : IntType}

instance : Zero T.Val := ⟨⟨0, T.min_le, T.le_max⟩⟩

@[simp] lemma Val.val_zero : (0 : T.Val).val = 0 := rfl

/-- `++i` -/
def Val.increment (i : T.Val) : Except Fault T.Val :=
  if h : i.val + 1 ≤ T.max then
    .ok ⟨i.val + 1, Int.le_add_one i.le_val, h⟩
  else
    .error .overflow

/-- `static_cast<size_t>` -/
def Val.toSize (i : T.Val) : ℕ := (i.val % 2 ^ 64).toNat

lemma Val.increment_of_lt {i : T.Val} (h : i.val < T.max) :
    ∃ j, i.increment = .ok j ∧ j.val = i.val + 1 :=
  ⟨_, dif_pos h, rfl⟩

lemma Val.toSize_of_nonneg {i : T.Val} {m : ℕ} (h : i.val = m) (hm : m < 2 ^ 64) :
    i.toSize = m := by
  rw [toSize, h]
  omega

/-- What lies between a value and zero is a value. -/
lemma Val.between (i : T.Val) {j : ℤ} (habs : j.natAbs ≤ i.val.natAbs)
    (hpos : 0 ≤ i.val → 0 ≤ j) (hneg : i.val ≤ 0 → j ≤ 0) : T.min ≤ j ∧ j ≤ T.max := by
  have hmin := T.min_le
  have hmax := T.le_max
  have hle := i.le_val
  have hge := i.val_le
  constructor <;> omega

lemma Val.tmod_mem (i : T.Val) (d : ℤ) : T.min ≤ i.val.tmod d ∧ i.val.tmod d ≤ T.max := by
  refine i.between ?_ (fun h => Int.tmod_nonneg d h) fun h => ?_
  · rw [Int.natAbs_tmod]
    exact Nat.mod_le ..
  · have hflip := Int.tmod_nonneg d (a := -i.val) (by omega)
    rw [Int.neg_tmod] at hflip
    omega

/-- `i / d` -/
def Val.div (i : T.Val) (d : ℤ) : Except Fault T.Val :=
  if h : d ≠ 0 ∧ T.min ≤ i.val.tdiv d ∧ i.val.tdiv d ≤ T.max then
    .ok ⟨i.val.tdiv d, h.2.1, h.2.2⟩
  else
    .error .overflow

/-- `i % d`, which has a meaning where `i / d` has one. -/
def Val.mod (i : T.Val) (d : ℤ) : Except Fault T.Val :=
  if d ≠ 0 ∧ T.min ≤ i.val.tdiv d ∧ i.val.tdiv d ≤ T.max then
    .ok ⟨i.val.tmod d, (i.tmod_mem d).1, (i.tmod_mem d).2⟩
  else
    .error .overflow

lemma Val.val_div {i q : T.Val} {d : ℤ} (h : i.div d = .ok q) : q.val = i.val.tdiv d := by
  rw [div] at h
  split at h
  · cases h
    rfl
  · cases h

/-- Nothing overflows in a division by a positive number. -/
lemma Val.tdiv_mem (i : T.Val) {d : ℤ} (hd : 0 < d) :
    d ≠ 0 ∧ T.min ≤ i.val.tdiv d ∧ i.val.tdiv d ≤ T.max := by
  refine ⟨by omega, i.between (Int.natAbs_tdiv_le_natAbs ..) (fun h => ?_) fun h => ?_⟩
  · exact Int.tdiv_nonneg h (Int.le_of_lt hd)
  · have hflip := Int.tdiv_nonneg (a := -i.val) (b := d) (by omega) (Int.le_of_lt hd)
    rw [Int.neg_tdiv] at hflip
    omega

lemma Val.div_of_pos (i : T.Val) {d : ℤ} (hd : 0 < d) :
    ∃ q, i.div d = .ok q ∧ q.val = i.val.tdiv d :=
  ⟨_, dif_pos (i.tdiv_mem hd), rfl⟩

lemma Val.mod_of_pos (i : T.Val) {d : ℤ} (hd : 0 < d) :
    ∃ r, i.mod d = .ok r ∧ r.val = i.val.tmod d :=
  ⟨_, if_pos (i.tdiv_mem hd), rfl⟩

end IntType

end Cpp
