import Mathlib.Data.Nat.Init

/-!
# Decimal numerals

The canonical text of an integer in ASCII, and how a text is read back.
-/

namespace Decimal

/-- The character of a digit. -/
def digit (d : ℕ) : UInt8 := UInt8.ofNat (48 + d)

def minus : UInt8 := 45

def ofNat (n : ℕ) : List UInt8 := (Nat.toDigits 10 n).map Char.toUInt8

def ofInt (value : ℤ) : List UInt8 :=
  if value < 0 then minus :: ofNat value.natAbs else ofNat value.natAbs

def readNat (ds : List UInt8) : ℕ := ds.foldl (fun n c => 10 * n + (c.toNat - 48)) 0

def readInt : List UInt8 → ℤ
  | [] => 0
  | c :: ds => if c = minus then -(readNat ds : ℤ) else readNat (c :: ds)

/-- Digits, with no zero in front of another one, and a minus sign in front of them for negative
values only. -/
def Canonical (value : ℤ) (text : List UInt8) : Prop :=
  ∃ ds, text = (if value < 0 then minus :: ds else ds) ∧ ds ≠ [] ∧ (∀ c ∈ ds, 48 ≤ c ∧ c ≤ 57) ∧
    (ds.head? = some 48 → value = 0 ∧ ds = [48])

/-! ### Natural numbers -/

/-- Induction on the number of digits. -/
lemma induction_div {P : ℕ → Prop} (hdigit : ∀ d < 10, P d)
    (hstep : ∀ n, 10 ≤ n → P (n / 10) → P n) (n : ℕ) : P n := by
  induction n using Nat.strongRecOn with
  | _ n ih =>
    by_cases hn : n < 10
    · exact hdigit n hn
    · exact hstep n (Nat.le_of_not_lt hn) (ih (n / 10) (by omega))

lemma toUInt8_digitChar {d : ℕ} (h : d < 10) : d.digitChar.toUInt8 = digit d := by
  have hall : ∀ d : Fin 10, (d : ℕ).digitChar.toUInt8 = digit d := by decide
  exact hall ⟨d, h⟩

lemma ofNat_of_lt {n : ℕ} (h : n < 10) : ofNat n = [digit n] := by
  rw [ofNat, Nat.toDigits_of_lt_base h, List.map_singleton, toUInt8_digitChar h]

lemma ofNat_of_le {n : ℕ} (h : 10 ≤ n) : ofNat n = ofNat (n / 10) ++ [digit (n % 10)] := by
  rw [ofNat, Nat.toDigits_of_base_le (by decide) h, List.map_append, List.map_singleton,
    toUInt8_digitChar (Nat.mod_lt n (by decide))]
  rfl

lemma ofNat_ne_nil (n : ℕ) : ofNat n ≠ [] := by
  rw [ofNat, Ne, List.map_eq_nil_iff]
  exact Nat.toDigits_ne_nil

lemma toNat_digit {d : ℕ} (h : d < 10) : (digit d).toNat = 48 + d := by
  rw [digit, UInt8.toNat_ofNat', Nat.mod_eq_of_lt (by omega)]

lemma digit_mem {d : ℕ} (h : d < 10) : 48 ≤ digit d ∧ digit d ≤ 57 := by
  rw [UInt8.le_iff_toNat_le, UInt8.le_iff_toNat_le, toNat_digit h]
  exact ⟨by simp, by simp; omega⟩

lemma readNat_concat (ds : List UInt8) (c : UInt8) :
    readNat (ds ++ [c]) = 10 * readNat ds + (c.toNat - 48) := by
  rw [readNat, List.foldl_append]
  rfl

lemma readNat_ofNat (n : ℕ) : readNat (ofNat n) = n := by
  induction n using induction_div with
  | hdigit d hd =>
    rw [ofNat_of_lt hd, ← List.nil_append [digit d], readNat_concat, toNat_digit hd]
    simp [readNat]
  | hstep n hn ih =>
    rw [ofNat_of_le hn, readNat_concat, ih, toNat_digit (Nat.mod_lt n (by decide))]
    omega

lemma mem_ofNat {n : ℕ} {c : UInt8} (h : c ∈ ofNat n) : 48 ≤ c ∧ c ≤ 57 := by
  induction n using induction_div with
  | hdigit d hd =>
    rw [ofNat_of_lt hd, List.mem_singleton] at h
    exact h ▸ digit_mem hd
  | hstep n hn ih =>
    rw [ofNat_of_le hn] at h
    rcases List.mem_append.mp h with h | h
    · exact ih h
    · rw [List.mem_singleton] at h
      exact h ▸ digit_mem (Nat.mod_lt n (by decide))

/-- Only zero begins with a zero. -/
lemma eq_zero_of_head_ofNat {n : ℕ} (h : (ofNat n).head? = some 48) : n = 0 := by
  induction n using induction_div with
  | hdigit d hd =>
    rw [ofNat_of_lt hd, List.head?_singleton, Option.some.injEq] at h
    have hnat := congrArg UInt8.toNat h
    rw [toNat_digit hd] at hnat
    simpa using hnat
  | hstep n hn ih =>
    have hne := List.head?_eq_some_head (ofNat_ne_nil (n / 10))
    rw [ofNat_of_le hn, List.head?_append, hne, Option.some_or, ← hne] at h
    have hzero := ih h
    omega

/-! ### Integers -/

lemma canonical_ofInt (value : ℤ) : Canonical value (ofInt value) := by
  refine ⟨ofNat value.natAbs, rfl, ofNat_ne_nil _, fun c => mem_ofNat, fun h => ?_⟩
  have hzero := eq_zero_of_head_ofNat h
  exact ⟨Int.natAbs_eq_zero.mp hzero, by rw [hzero]; rfl⟩

lemma readInt_ofInt (value : ℤ) : readInt (ofInt value) = value := by
  rw [ofInt]
  by_cases hneg : value < 0
  · rw [if_pos hneg, readInt, if_pos rfl, readNat_ofNat]
    omega
  · rw [if_neg hneg]
    cases htext : ofNat value.natAbs with
    | nil => exact absurd htext (ofNat_ne_nil _)
    | cons c ds =>
      have hc : c ≠ minus := by
        rintro rfl
        have hmem := mem_ofNat (n := value.natAbs) (c := minus) (by rw [htext]; simp)
        exact absurd hmem.1 (by decide)
      rw [readInt, if_neg hc, ← htext, readNat_ofNat]
      omega

end Decimal
