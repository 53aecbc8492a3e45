import Mathlib.Algebra.Group.Nat.Defs
import Mathlib.Data.Int.Basic

/-!
# Pieces of C++

Code with undefined behaviour is written in `Except Fault`: an operation the language gives no
meaning to ends in the fault that says why. A `std::unique_ptr` is an `Option`, which a move
leaves at `none`.
-/

namespace Cpp

/-- A byte. -/
abbrev Byte := UInt8

/-- The characters of a string literal, in front of its terminator. -/
def literal (s : String) : List Byte := s.toList.map Char.toUInt8

/-- Why an operation is undefined. -/
inductive Fault
  /-- A null pointer is dereferenced. -/
  | nullDeref
  /-- `back` or `pop_back` on an empty vector. -/
  | emptyVector
  /-- An array is used outside of its bounds. -/
  | overrun
  /-- A member of a destroyed object is used. -/
  | destroyed
  /-- A division by zero, or a result that is no value of the type. -/
  | overflow
  deriving DecidableEq, Repr

/-- `static_cast<int>` of a `size_t`: the value modulo `2 ^ 32`, as a signed number. -/
def sizeToInt (n : ℕ) : ℤ := Int.bmod n (2 ^ 32)

lemma sizeToInt_of_lt {n : ℕ} (h : n < 2 ^ 31) : sizeToInt n = n := by
  apply Int.bmod_eq_of_le <;> omega

variable {α β : Type}

@[simp] lemma ok_bind (a : α) (f : α → Except Fault β) : (Except.ok a >>= f) = f a := rfl

@[simp] lemma ok_map (a : α) (f : α → β) :
    (Except.ok a : Except Fault α).map f = .ok (f a) := rfl

/-- `*p` -/
def deref : Option α → Except Fault α
  | some a => .ok a
  | none => .error .nullDeref

/-- `v.back()` moved out, then `v.pop_back()`. -/
def popBack (v : List α) : Except Fault (α × List α) :=
  match v.getLast? with
  | some a => .ok (a, v.dropLast)
  | none => .error .emptyVector

@[simp] lemma deref_some (a : α) : deref (some a) = .ok a := rfl

@[simp] lemma popBack_append (v : List α) (a : α) : popBack (v ++ [a]) = .ok (a, v) := by
  simp [popBack]

/-! ### C strings -/

/-- A `const char *` to a string: the characters in front of the terminator. -/
structure CString where
  bytes : List Byte
  terminated : 0 ∉ bytes
  deriving DecidableEq

/-- `str[i]`, for a pointer to nothing but the string. -/
def CString.get (str : CString) (i : ℕ) : Except Fault Byte :=
  match str.bytes[i]? with
  | some b => .ok b
  | none => if i = str.bytes.length then .ok 0 else .error .overrun

lemma CString.get_of_some {str : CString} {i : ℕ} {b : Byte} (h : str.bytes[i]? = some b) :
    str.get i = .ok b := by
  rw [get, h]

lemma CString.get_length (str : CString) : str.get str.bytes.length = .ok 0 := by
  simp [get]

lemma CString.get_of_gt {str : CString} {i : ℕ} (h : str.bytes.length < i) :
    str.get i = .error .overrun := by
  rw [get, List.getElem?_eq_none (by omega)]
  exact if_neg (by omega)

lemma CString.le_of_get {str : CString} {i : ℕ} {b : Byte} (h : str.get i = .ok b) :
    i ≤ str.bytes.length := by
  by_contra hgt
  rw [get_of_gt (by omega)] at h
  cases h

/-- The terminator is the only zero. -/
lemma CString.get_eq_zero {str : CString} {i : ℕ} : str.get i = .ok 0 ↔ i = str.bytes.length := by
  constructor
  · intro h
    cases hb : str.bytes[i]? with
    | some b =>
      rw [get_of_some hb] at h
      cases h
      exact absurd (List.mem_of_getElem? hb) str.terminated
    | none =>
      have hle := le_of_get h
      have hge := List.getElem?_eq_none_iff.mp hb
      omega
  · rintro rfl
    exact str.get_length

/-- A sequence of calls is defined if and only if each of them is, where it is made. -/
lemma foldlM_ok_iff {f : α → β → Except Fault α} {a : α} {bs : List β} :
    (∃ a', bs.foldlM f a = .ok a') ↔ ∀ pre b post, bs = pre ++ b :: post →
      ∀ c, pre.foldlM f a = .ok c → ∃ d, f c b = .ok d := by
  induction bs generalizing a with
  | nil => exact ⟨fun _ pre b post h => by simp at h, fun _ => ⟨a, rfl⟩⟩
  | cons b bs ih =>
    constructor
    · rintro ⟨a', ha'⟩ pre b' post hbs c hc
      rw [List.foldlM_cons] at ha'
      cases hb : f a b with
      | error e =>
        rw [hb] at ha'
        cases ha'
      | ok d =>
        cases pre with
        | nil =>
          obtain ⟨rfl, -⟩ := List.cons.inj hbs
          cases hc
          exact ⟨d, hb⟩
        | cons x pre =>
          obtain ⟨rfl, rfl⟩ := List.cons.inj hbs
          rw [hb, ok_bind] at ha'
          rw [List.foldlM_cons, hb, ok_bind] at hc
          exact ih.mp ⟨a', ha'⟩ pre b' post rfl c hc
    · intro h
      obtain ⟨d, hd⟩ := h [] b bs rfl a rfl
      rw [List.foldlM_cons, hd, ok_bind]
      refine ih.mpr fun pre b' post hbs c hc => h (b :: pre) b' post (by rw [hbs]; rfl) c ?_
      rw [List.foldlM_cons, hd, ok_bind, hc]

end Cpp
