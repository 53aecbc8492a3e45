import ClwServer.Core.Cpp
import Mathlib.Algebra.Ring.Int.Defs

/-!
# Integers in decimal

`convert` of `LogStream.cc`. The division truncates, so that the remainders of a negative value
are negative; the table of digits is addressed from its middle.
-/

namespace ClwServer.LogStream

open Cpp

/-- `const char digits[]`, without its terminator. -/
def digits : List Byte := literal "9876543210123456789"

/-- `zero[lsd]`, where `zero` points to the tenth character of `digits`. -/
def zero (lsd : ℤ) : Except Fault Byte :=
  if 0 ≤ 9 + lsd then
    match digits[(9 + lsd).toNat]? with
    | some c => .ok c
    | none => .error .overrun
  else
    .error .overrun

lemma natAbs_tdiv_lt {i : ℤ} (h : i.tdiv 10 ≠ 0) : (i.tdiv 10).natAbs < i.natAbs := by
  rw [Int.natAbs_tdiv] at *
  have hpos : i.natAbs / 10 ≠ 0 := by
    intro hzero
    apply h
    rw [← Int.natAbs_eq_zero, Int.natAbs_tdiv]
    exact hzero
  exact Nat.div_lt_self (by omega) (by decide)

/-- The `do` loop of `convert`: the digits of `i`, the last one first. -/
def convertLoop (i : ℤ) : Except Fault (List Byte) := do
  let c ← zero (i.tmod 10)
  if _h : i.tdiv 10 = 0 then
    .ok [c]
  else
    let cs ← convertLoop (i.tdiv 10)
    .ok (c :: cs)
termination_by i.natAbs
decreasing_by exact natAbs_tdiv_lt _h

/-- `convert(buf, value)`: the characters it leaves at `buf`, in front of the terminator. -/
def convert (value : ℤ) : Except Fault (List Byte) := do
  let cs ← convertLoop value
  .ok (if value < 0 then cs ++ literal "-" else cs).reverse

/-! ### The length of a number -/

/-- A remainder is in the table. -/
lemma exists_zero {lsd : ℤ} (hlo : -10 < lsd) (hhi : lsd < 10) : ∃ c, zero lsd = .ok c := by
  have hlen : (9 + lsd).toNat < digits.length := by
    have htable : digits.length = 19 := by decide
    omega
  refine ⟨digits[(9 + lsd).toNat], ?_⟩
  rw [zero, if_pos (by omega), List.getElem?_eq_getElem hlen]

lemma exists_zero_tmod (i : ℤ) : ∃ c, zero (i.tmod 10) = .ok c := by
  apply exists_zero
  · exact Int.lt_tmod_of_pos i (by decide)
  · exact Int.tmod_lt_of_pos i (by decide)

/-- A value below `10 ^ k` has at most `k` digits. -/
lemma convertLoop_spec {i : ℤ} {k : ℕ} (hk : 0 < k) (hi : i.natAbs < 10 ^ k) :
    ∃ cs, convertLoop i = .ok cs ∧ 0 < cs.length ∧ cs.length ≤ k := by
  obtain ⟨c, hc⟩ := exists_zero_tmod i
  rw [convertLoop, hc, ok_bind]
  by_cases hzero : i.tdiv 10 = 0
  · rw [dif_pos hzero]
    exact ⟨[c], rfl, Nat.one_pos, hk⟩
  · rw [dif_neg hzero]
    obtain ⟨k, rfl⟩ : ∃ l, k = l + 1 := ⟨k - 1, by omega⟩
    have habs : (i.tdiv 10).natAbs = i.natAbs / 10 := Int.natAbs_tdiv i 10
    have hdiv : (i.tdiv 10).natAbs < 10 ^ k := by
      rw [habs]
      rw [Nat.pow_succ] at hi
      omega
    have hk' : 0 < k := by
      by_contra hnot
      obtain rfl : k = 0 := by omega
      apply hzero
      rw [← Int.natAbs_eq_zero]
      simpa using hdiv
    obtain ⟨cs, hcs, -, hlen⟩ := convertLoop_spec hk' hdiv
    rw [hcs, ok_bind]
    exact ⟨c :: cs, rfl, Nat.succ_pos _, Nat.succ_le_succ hlen⟩
termination_by i.natAbs
decreasing_by exact natAbs_tdiv_lt hzero

/-- The values of the integral types. -/
def Integral (value : ℤ) : Prop := -2 ^ 63 ≤ value ∧ value < 2 ^ 64

/-- The text of an integer has at most 20 characters, and at least one. -/
lemma convert_spec {value : ℤ} (h : Integral value) :
    ∃ text, convert value = .ok text ∧ 0 < text.length ∧ text.length ≤ 20 := by
  obtain ⟨hlo, hhi⟩ := h
  rw [convert]
  by_cases hneg : value < 0
  · obtain ⟨cs, hcs, hpos, hlen⟩ := convertLoop_spec (i := value) (k := 19) (by decide) (by omega)
    rw [hcs, ok_bind, if_pos hneg]
    refine ⟨_, rfl, ?_⟩
    rw [List.length_reverse, List.length_append]
    have hminus : (literal "-").length = 1 := by decide
    omega
  · obtain ⟨cs, hcs, hpos, hlen⟩ := convertLoop_spec (i := value) (k := 20) (by decide) (by omega)
    rw [hcs, ok_bind, if_neg hneg]
    refine ⟨_, rfl, ?_⟩
    rw [List.length_reverse]
    exact ⟨hpos, hlen⟩

end ClwServer.LogStream
