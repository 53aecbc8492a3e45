import Mathlib.Data.List.Basic

/-!
# The extent of a vector

The number of elements of a `std::vector` and the number of slots it has allocated, as the GNU
library computes them.
-/

namespace Cpp

structure Extent where
  size : ℕ
  capacity : ℕ
  le : size ≤ capacity
  deriving DecidableEq

namespace Extent

/-- `std::vector<T> v(n)` -/
def ofSize (n : ℕ) : Extent := ⟨n, n, Nat.le_refl n⟩

/-- `v.clear()`, which keeps the memory. -/
def clear (v : Extent) : Extent := ⟨0, v.capacity, Nat.zero_le _⟩

/-- The capacity `v.resize(n)` leaves: memory that is too small grows by its size, or to `n`. -/
def grown (v : Extent) (n : ℕ) : ℕ :=
  if n ≤ v.capacity then v.capacity else v.size + max v.size (n - v.size)

lemma le_grown (v : Extent) (n : ℕ) : n ≤ v.grown n := by
  by_cases hle : n ≤ v.capacity
  · rwa [grown, if_pos hle]
  · rw [grown, if_neg hle]
    omega

/-- `v.resize(n)` -/
def resize (v : Extent) (n : ℕ) : Extent := ⟨n, v.grown n, v.le_grown n⟩

/-- Doubling the capacity leaves no slack. -/
lemma capacity_resize_of_double_le {v : Extent} {n : ℕ} (hpos : 0 < v.capacity)
    (h : 2 * v.capacity ≤ n) : (v.resize n).capacity = n := by
  have hsize := v.le
  show v.grown n = n
  rw [grown, if_neg (by omega)]
  omega

end Extent

end Cpp
