import Mathlib.Data.List.Rotate

/-!
# Serving a list in turn

What a round robin over a list serves in its first turns. A window as long as the list is a
rotation of it, wherever the window begins.
-/

namespace RoundRobin

variable {α : Type*} {ls : List α}

/-- What the first `k` turns serve. -/
def served (ls : List α) : ℕ → List α
  | 0 => []
  | k + 1 => served ls k ++ (ls[k % ls.length]?).toList

@[simp] lemma served_zero : served ls 0 = [] := rfl

lemma served_succ {k : ℕ} {a : α} (h : ls[k % ls.length]? = some a) :
    served ls (k + 1) = served ls k ++ [a] := by
  rw [served, h]
  rfl

/-- The first round serves the list in its own order. -/
lemma served_of_le {k : ℕ} (hk : k ≤ ls.length) : served ls k = ls.take k := by
  induction k with
  | zero => simp
  | succ k ih => rw [served, ih (by omega), Nat.mod_eq_of_lt hk, List.take_add_one]

lemma length_served (hls : ls ≠ []) (k : ℕ) : (served ls k).length = k := by
  have hpos := List.length_pos_iff.mpr hls
  induction k with
  | zero => rfl
  | succ k ih =>
    rw [served_succ (List.getElem?_eq_getElem (Nat.mod_lt k hpos)), List.length_append, ih]
    rfl

/-- Who is served in the turn `i`. -/
lemma getElem?_served (hls : ls ≠ []) {i k : ℕ} (hi : i < k) :
    (served ls k)[i]? = ls[i % ls.length]? := by
  have hpos := List.length_pos_iff.mpr hls
  induction k with
  | zero => omega
  | succ k ih =>
    have hlen := length_served hls k
    have hturn := List.getElem?_eq_getElem (Nat.mod_lt k hpos)
    rw [served_succ hturn]
    by_cases hik : i < k
    · rw [List.getElem?_append_left (by omega), ih hik]
    · obtain rfl : i = k := by omega
      rw [List.getElem?_append_right hlen.le, hlen, Nat.sub_self, hturn]
      rfl

/-- Behind `k` turns a round robin goes on as one over the rotated list. -/
lemma served_add (hls : ls ≠ []) (k m : ℕ) :
    served ls (k + m) = served ls k ++ served (ls.rotate k) m := by
  have hpos := List.length_pos_iff.mpr hls
  induction m with
  | zero => simp
  | succ m ih =>
    have hturn : (ls.rotate k)[m % (ls.rotate k).length]? = ls[(k + m) % ls.length]? := by
      rw [List.length_rotate, List.getElem?_rotate (Nat.mod_lt m hpos), Nat.mod_add_mod,
        Nat.add_comm]
    rw [← Nat.add_assoc, served, ih, served, hturn, List.append_assoc]

lemma served_add_length (hls : ls ≠ []) (k : ℕ) :
    served ls (k + ls.length) = served ls k ++ ls.rotate k := by
  have hlen : ls.length = (ls.rotate k).length := (List.length_rotate ls k).symm
  rw [served_add hls, served_of_le hlen.le, List.take_of_length_le hlen.ge]

/-- Any window as long as the list serves a rotation of it. -/
lemma window_served (hls : ls ≠ []) {start k : ℕ} (hk : start + ls.length ≤ k) :
    ((served ls k).drop start).take ls.length = ls.rotate start := by
  obtain ⟨m, rfl⟩ := Nat.exists_eq_add_of_le hk
  have hlen := length_served hls start
  rw [served_add hls, served_add_length hls, List.append_assoc, List.drop_left' hlen,
    List.take_left' (List.length_rotate ..)]

/-- A counter that wraps around in front of `m` goes through the remainders. -/
lemma wrap_succ {m : ℕ} (hm : 0 < m) (k : ℕ) :
    (if m ≤ k % m + 1 then 0 else k % m + 1) = (k + 1) % m := by
  have hlt := Nat.mod_lt k hm
  rw [← Nat.mod_add_mod k m 1]
  split_ifs with hwrap
  · have hlast : k % m + 1 = m := by omega
    rw [hlast, Nat.mod_self]
  · exact (Nat.mod_eq_of_lt (by omega)).symm

section Count

variable [DecidableEq α]

lemma count_served_add_length (hls : ls.Nodup) {a : α} (ha : a ∈ ls) (k : ℕ) :
    (served ls (k + ls.length)).count a = (served ls k).count a + 1 := by
  rw [served_add_length (List.ne_nil_of_mem ha), List.count_append,
    (ls.rotate_perm k).count_eq, List.count_eq_one_of_mem hls ha]

/-- Whoever is in the list is served once a round, and at most once in a round that has not
ended. -/
lemma count_served (hls : ls.Nodup) {a : α} (ha : a ∈ ls) (k : ℕ) :
    k / ls.length ≤ (served ls k).count a ∧ (served ls k).count a ≤ k / ls.length + 1 := by
  have hpos := List.length_pos_of_mem ha
  induction k using Nat.strong_induction_on with
  | _ k ih =>
    by_cases hk : k < ls.length
    · have hsub : (served ls k).count a ≤ ls.count a := by
        rw [served_of_le hk.le]
        exact (List.take_sublist k ls).count_le a
      rw [List.count_eq_one_of_mem hls ha] at hsub
      rw [Nat.div_eq_of_lt hk]
      omega
    · obtain ⟨m, rfl⟩ := Nat.exists_eq_add_of_le' (Nat.le_of_not_lt hk)
      have hm := ih m (by omega)
      rw [count_served_add_length hls ha, Nat.add_div_right m hpos]
      omega

/-- No two are ever more than one turn apart. -/
lemma count_served_le (hls : ls.Nodup) {a b : α} (ha : a ∈ ls) (hb : b ∈ ls) (k : ℕ) :
    (served ls k).count a ≤ (served ls k).count b + 1 :=
  (count_served hls ha k).2.trans (Nat.add_le_add_right (count_served hls hb k).1 1)

end Count

end RoundRobin
