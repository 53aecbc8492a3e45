import ClwServer.Base.LogStream.Convert
import ClwServer.Core.Decimal
import ClwServer.Core.IntType
import Mathlib.Data.List.Basic

/-!
# The text of an integer in the buffer

`convert` with what it does to `buf`: the digits are stored from the last one on, then the sign
and the terminator, and what stands in front of the terminator is reversed. The arithmetic is that
of the type of the value.
-/

namespace ClwServer.LogStream

open Cpp

/-- The types `formatInteger` is used for; `long long` has the range of `long`. -/
def integralTypes : List IntType := [.int, .unsignedInt, .long, .unsignedLong]

/-- `*p = c`, for a pointer into `buf`. -/
def store (buf : List Byte) (p : ℕ) (c : Byte) : Except Fault (List Byte) :=
  if p < buf.length then .ok (buf.set p c) else .error .overrun

/-- `std::reverse(buf, p)` -/
def reverse (buf : List Byte) (p : ℕ) : List Byte := (buf.take p).reverse ++ buf.drop p

variable {T : IntType}

/-- The `do` loop: the array, and `p`. -/
def storeLoop (buf : List Byte) (p : ℕ) (i : T.Val) : Except Fault (List Byte × ℕ) :=
  match i.mod 10 with
  | .error f => .error f
  | .ok lsd =>
    match hdiv : i.div 10 with
    | .error f => .error f
    | .ok i' => do
      let c ← zero lsd.val
      let buf ← store buf p c
      if _h : i'.val = 0 then
        .ok (buf, p + 1)
      else
        storeLoop buf (p + 1) i'
termination_by i.val.natAbs
decreasing_by
  rw [IntType.Val.val_div hdiv] at *
  exact natAbs_tdiv_lt _h

/-- `convert(buf, value)`: the array, and the length it returns. -/
def convertInto (buf : List Byte) (value : T.Val) : Except Fault (List Byte × ℕ) := do
  let (buf, p) ← storeLoop buf 0 value
  let (buf, p) ← if value.val < 0 then (store buf p Decimal.minus).map (·, p + 1) else .ok (buf, p)
  let buf ← store buf p 0
  .ok (reverse buf p, p)

/-! ### The digits -/

/-- The table has the digits of the negative remainders in front of those of the others. -/
lemma zero_eq {lsd : ℤ} (hlo : -10 < lsd) (hhi : lsd < 10) :
    zero lsd = .ok (Decimal.digit lsd.natAbs) := by
  obtain ⟨k, hk, rfl⟩ : ∃ k : ℕ, k < 19 ∧ lsd = k - 9 := ⟨(lsd + 9).toNat, by omega, by omega⟩
  have htable : ∀ k : Fin 19, zero ((k : ℕ) - 9) = .ok (Decimal.digit ((k : ℕ) - 9 : ℤ).natAbs) := by
    decide
  exact htable ⟨k, hk⟩

lemma zero_tmod (i : ℤ) : zero (i.tmod 10) = .ok (Decimal.digit (i.natAbs % 10)) := by
  have habs : (i.tmod 10).natAbs = i.natAbs % 10 := Int.natAbs_tmod i 10
  rw [← habs]
  apply zero_eq
  · exact Int.lt_tmod_of_pos i (by decide)
  · exact Int.tmod_lt_of_pos i (by decide)

lemma natAbs_tdiv_ten (i : ℤ) : (i.tdiv 10).natAbs = i.natAbs / 10 := Int.natAbs_tdiv i 10

lemma convertLoop_eq (i : ℤ) : convertLoop i = .ok (Decimal.ofNat i.natAbs).reverse := by
  rw [convertLoop, zero_tmod, ok_bind]
  have habs := natAbs_tdiv_ten i
  by_cases hzero : i.tdiv 10 = 0
  · rw [dif_pos hzero]
    have hlt : i.natAbs < 10 := by omega
    rw [Decimal.ofNat_of_lt hlt, Nat.mod_eq_of_lt hlt]
    rfl
  · rw [dif_neg hzero, convertLoop_eq (i.tdiv 10), ok_bind, habs,
      Decimal.ofNat_of_le (n := i.natAbs) (by omega), List.reverse_append]
    rfl
termination_by i.natAbs
decreasing_by exact natAbs_tdiv_lt hzero

/-- What `convert` leaves is the decimal numeral. -/
lemma convert_eq (value : ℤ) : convert value = .ok (Decimal.ofInt value) := by
  rw [convert, convertLoop_eq, ok_bind, Decimal.ofInt]
  by_cases hneg : value < 0
  · rw [if_pos hneg, if_pos hneg, List.reverse_append, List.reverse_reverse]
    rfl
  · rw [if_neg hneg, if_neg hneg, List.reverse_reverse]

/-! ### The array -/

lemma store_append (front back : List Byte) (x c : Byte) :
    store (front ++ x :: back) front.length c = .ok (front ++ c :: back) := by
  have hlt : front.length < (front ++ x :: back).length := by
    rw [List.length_append, List.length_cons]
    omega
  rw [store, if_pos hlt, List.set_append_right _ _ (Nat.le_refl _), Nat.sub_self]
  rfl

/-- The loop replaces as many bytes as there are digits. -/
lemma storeLoop_eq (front old back : List Byte) (i : T.Val)
    (hold : old.length = (Decimal.ofNat i.val.natAbs).length) :
    storeLoop (front ++ old ++ back) front.length i =
      .ok (front ++ (Decimal.ofNat i.val.natAbs).reverse ++ back, front.length + old.length) := by
  obtain ⟨lsd, hmod, hlsd⟩ := i.mod_of_pos (d := 10) (by decide)
  obtain ⟨i', hdiv, hi'⟩ := i.div_of_pos (d := 10) (by decide)
  have habs := natAbs_tdiv_ten i.val
  obtain ⟨x, old, rfl⟩ : ∃ x xs, old = x :: xs := by
    cases old with
    | nil => exact absurd (List.length_eq_zero_iff.mp hold.symm) (Decimal.ofNat_ne_nil _)
    | cons x xs => exact ⟨x, xs, rfl⟩
  rw [storeLoop, hmod]
  simp only
  split
  · rename_i f herror
    rw [hdiv] at herror
    cases herror
  · rename_i q hq
    cases hdiv.symm.trans hq
    rw [hlsd, zero_tmod, ok_bind, List.append_assoc, List.cons_append, store_append, ok_bind]
    rw [← hi'] at habs
    by_cases hzero : i'.val = 0
    · have hlt : i.val.natAbs < 10 := by omega
      rw [Decimal.ofNat_of_lt hlt, List.length_singleton] at hold
      obtain rfl : old = [] := List.length_eq_zero_iff.mp (by simpa using hold)
      rw [dif_pos hzero, Decimal.ofNat_of_lt hlt, Nat.mod_eq_of_lt hlt]
      simp
    · have hofNat := Decimal.ofNat_of_le (n := i.val.natAbs) (by omega)
      rw [hofNat, ← habs] at hold ⊢
      -- the rest of the digits behind the one that is stored
      have ih := storeLoop_eq (front ++ [Decimal.digit (i.val.natAbs % 10)]) old back i'
        (by simpa using hold)
      have hfront : front ++ Decimal.digit (i.val.natAbs % 10) :: (old ++ back) =
          front ++ [Decimal.digit (i.val.natAbs % 10)] ++ old ++ back := by simp
      have hlen : front.length + 1 = (front ++ [Decimal.digit (i.val.natAbs % 10)]).length := by
        simp
      rw [dif_neg hzero, hfront, hlen, ih]
      simp [Nat.add_comm, Nat.add_left_comm]
termination_by i.val.natAbs
decreasing_by
  rw [hi'] at hzero ⊢
  exact natAbs_tdiv_lt hzero

/-- Behind the last character comes the terminator, and what is in front of it is reversed. -/
lemma terminate_eq (front back : List Byte) (x : Byte) :
    (store (front ++ x :: back) front.length 0 >>= fun buf =>
      .ok (reverse buf front.length, front.length)) =
      .ok (front.reverse ++ 0 :: back, front.length) := by
  rw [store_append, ok_bind, reverse, List.take_left, List.drop_left]

/-- `convert` replaces as many bytes as the text has, and one more. -/
lemma convertInto_append (value : T.Val) (old back : List Byte)
    (hold : old.length = (Decimal.ofInt value.val).length + 1) :
    convertInto (old ++ back) value = .ok (Decimal.ofInt value.val ++ 0 :: back,
      (Decimal.ofInt value.val).length) := by
  rw [Decimal.ofInt] at hold ⊢
  generalize hds : Decimal.ofNat value.val.natAbs = ds at hold ⊢
  have htake : (old.take ds.length).length = ds.length := by
    rw [List.length_take]
    split at hold
    · rw [List.length_cons] at hold
      omega
    · omega
  have hloop := storeLoop_eq [] (old.take ds.length) (old.drop ds.length ++ back) value
    (by rw [hds, htake])
  rw [List.nil_append, ← List.append_assoc, List.take_append_drop, List.nil_append, hds, htake,
    List.length_nil, Nat.zero_add] at hloop
  rw [convertInto, hloop, ok_bind]
  by_cases hneg : value.val < 0
  · simp only [if_pos hneg, List.length_cons] at hold ⊢
    obtain ⟨x, y, hrest⟩ : ∃ x y, old.drop ds.length = [x, y] :=
      List.length_eq_two.mp (by rw [List.length_drop]; omega)
    have hsign := store_append ds.reverse (y :: back) x Decimal.minus
    have hterminate := terminate_eq (ds.reverse ++ [Decimal.minus]) back y
    simp only [List.length_reverse, List.length_append, List.length_singleton, List.append_assoc,
      List.reverse_append, List.reverse_reverse, List.reverse_singleton,
      List.cons_append, List.nil_append] at hsign hterminate
    rw [hrest, List.cons_append, List.singleton_append, hsign]
    exact hterminate
  · simp only [if_neg hneg] at hold ⊢
    obtain ⟨x, hrest⟩ : ∃ x, old.drop ds.length = [x] :=
      List.length_eq_one_iff.mp (by rw [List.length_drop]; omega)
    have hterminate := terminate_eq ds.reverse back x
    rw [List.length_reverse, List.reverse_reverse] at hterminate
    rw [hrest, List.singleton_append]
    exact hterminate

/-! ### Every value of every type -/

lemma integral_of_mem (hT : T ∈ integralTypes) (value : T.Val) : Integral value.val := by
  have hle := value.le_val
  have hge := value.val_le
  simp only [integralTypes, List.mem_cons, List.not_mem_nil, or_false] at hT
  obtain rfl | rfl | rfl | rfl := hT
  all_goals
    simp only [IntType.int, IntType.unsignedInt, IntType.long, IntType.unsignedLong] at hle hge
    constructor <;> omega

/-- For every value of every type `convert` has a meaning: the remainders are in the table, and
nothing overflows. It leaves the canonical decimal text with a terminator behind it, which is read
back as the value, and needs 21 bytes at the most. -/
theorem convertInto_exact (hT : T ∈ integralTypes) (value : T.Val) {buf : List Byte}
    (hbuf : 21 ≤ buf.length) : ∃ text,
      convertInto buf value = .ok (text ++ 0 :: buf.drop (text.length + 1), text.length) ∧
      convert value.val = .ok text ∧ Decimal.Canonical value.val text ∧
      Decimal.readInt text = value.val ∧ text.length + 1 ≤ 21 := by
  obtain ⟨text, htext, -, hlen⟩ := convert_spec (integral_of_mem hT value)
  obtain rfl : Decimal.ofInt value.val = text :=
    Except.ok.inj ((convert_eq value.val).symm.trans htext)
  refine ⟨_, ?_, htext, Decimal.canonical_ofInt _, Decimal.readInt_ofInt _, by omega⟩
  have hinto := convertInto_append value (buf.take ((Decimal.ofInt value.val).length + 1))
    (buf.drop ((Decimal.ofInt value.val).length + 1)) (by rw [List.length_take]; omega)
  rwa [List.take_append_drop] at hinto

example : convert (-2 ^ 63) = .ok (literal "-9223372036854775808") := by
  rw [convert_eq]
  decide

/-- The most negative value. -/
theorem convertInto_exact_min : ∃ text,
    convertInto (List.replicate 32 0) (⟨-2 ^ 63, by decide, by decide⟩ : IntType.long.Val) =
      .ok (text ++ 0 :: (List.replicate 32 0).drop (text.length + 1), text.length) ∧
      convert (-2 ^ 63) = .ok text ∧ Decimal.Canonical (-2 ^ 63) text ∧
      Decimal.readInt text = -2 ^ 63 ∧ text.length + 1 ≤ 21 :=
  convertInto_exact (by simp [integralTypes]) ⟨-2 ^ 63, by decide, by decide⟩ (by simp)

end ClwServer.LogStream
