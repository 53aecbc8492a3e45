import ClwServer.Core.Cpp

/-!
# The line ends of a request

`findCRLF` of `HttpServer.cc`, the scan for the end of the request line, and its caller.
-/

namespace ClwServer.Http

open Cpp

/-- '\r' -/
def cr : Byte := 13

/-- '\n' -/
def lf : Byte := 10

/-- `str[pos] == '\r' && str[pos + 1] == '\n'` -/
def atCRLF (str : CString) (pos : ℕ) : Except Fault Bool := do
  if (← str.get pos) = cr then
    return (← str.get (pos + 1)) = lf
  else
    return false

/-- The loop of `findCRLF`. A turn ends in `pos++`, so the test looks two bytes on. -/
def findCRLF.loop (str : CString) (pos : ℕ) : Except Fault ℤ :=
  match atCRLF str pos with
  | .error e => .error e
  | .ok true => .ok pos
  | .ok false =>
    match hnext : str.get (pos + 1 + 1) with
    | .error e => .error e
    | .ok c => if c = 0 then findCRLF.loop str (pos + 1) else .ok (-1)
termination_by str.bytes.length - pos
decreasing_by
  have hle := CString.le_of_get hnext
  omega

def findCRLF (str : CString) : Except Fault ℤ := findCRLF.loop str 0

inductive ResquestParseState
  | Http_ResLine
  | Http_Headers
  | Http_Body
  | Http_Done
  deriving DecidableEq

/-- `ParseResquest`, which reads the state of the request and makes nothing of `pos`. -/
def parseResquest (str : CString) (parseState : ResquestParseState) : Except Fault Unit :=
  if parseState = .Http_ResLine then (findCRLF str).map fun _ => () else .ok ()

/-! ### Line ends -/

/-- A line ends at `p`. -/
def LineEnd (str : CString) (p : ℕ) : Prop :=
  str.bytes[p]? = some cr ∧ str.bytes[p + 1]? = some lf

/-- What the search is to answer. -/
def FirstLineEnd (str : CString) (r : ℤ) : Prop :=
  (∃ p : ℕ, r = p ∧ LineEnd str p ∧ ∀ q < p, ¬LineEnd str q) ∨ r = -1 ∧ ∀ p, ¬LineEnd str p

instance (str : CString) (p : ℕ) : Decidable (LineEnd str p) :=
  inferInstanceAs (Decidable (_ ∧ _))

variable {str : CString} {pos : ℕ} {r : ℤ}

/-- No byte behind the terminator is read for the test. -/
lemma atCRLF_eq (h : pos ≤ str.bytes.length) :
    atCRLF str pos = .ok (decide (LineEnd str pos)) := by
  rcases Nat.lt_or_eq_of_le h with hlt | rfl
  · rw [atCRLF, CString.get_of_some (List.getElem?_eq_getElem hlt), ok_bind]
    by_cases hcr : str.bytes[pos] = cr
    · rw [if_pos hcr]
      rcases Nat.lt_or_eq_of_le (Nat.succ_le_of_lt hlt) with hlt' | heq
      · rw [CString.get_of_some (List.getElem?_eq_getElem hlt'), ok_bind]
        simp [LineEnd, List.getElem?_eq_getElem hlt, List.getElem?_eq_getElem hlt', hcr, pure,
          Except.pure]
      · rw [← Nat.succ_eq_add_one, heq, CString.get_length, ok_bind]
        simp [LineEnd, ← heq, pure, Except.pure, lf]
    · rw [if_neg hcr]
      simp [LineEnd, List.getElem?_eq_getElem hlt, hcr, pure, Except.pure]
  · rw [atCRLF, CString.get_length, ok_bind, if_neg (by decide)]
    simp [LineEnd, pure, Except.pure]

lemma LineEnd.lt (h : LineEnd str pos) : pos + 1 < str.bytes.length :=
  (List.getElem?_eq_some_iff.mp h.2).1

/-! ### The loop -/

lemma loop_of_lineEnd (h : LineEnd str pos) : findCRLF.loop str pos = .ok pos := by
  have hlt := h.lt
  rw [findCRLF.loop, atCRLF_eq (by omega), decide_eq_true h]

lemma loop_of_not_lineEnd (hpos : pos ≤ str.bytes.length) (h : ¬LineEnd str pos) :
    findCRLF.loop str pos =
      if pos + 2 < str.bytes.length then .ok (-1)
      else if pos + 2 = str.bytes.length then findCRLF.loop str (pos + 1)
      else .error .overrun := by
  rw [findCRLF.loop, atCRLF_eq hpos, decide_eq_false h]
  simp only
  split
  · rename_i e hnext
    have hgt : str.bytes.length < pos + 2 := by
      by_contra hle
      obtain hlt | heq := Nat.lt_or_eq_of_le (Nat.le_of_not_lt hle)
      · rw [CString.get_of_some (List.getElem?_eq_getElem hlt)] at hnext
        cases hnext
      · rw [show pos + 1 + 1 = str.bytes.length from heq, CString.get_length] at hnext
        cases hnext
    rw [if_neg (by omega), if_neg (by omega)]
    rw [CString.get_of_gt hgt] at hnext
    cases hnext
    rfl
  · rename_i c hnext
    by_cases hc : c = 0
    · subst hc
      have heq := CString.get_eq_zero.mp hnext
      rw [if_pos rfl, if_neg (by omega), if_pos heq]
    · have hle := CString.le_of_get hnext
      have hne : pos + 2 ≠ str.bytes.length := by
        intro heq
        rw [show pos + 1 + 1 = str.bytes.length from heq, CString.get_length] at hnext
        cases hnext
        exact hc rfl
      rw [if_neg hc, if_pos (by omega)]

/-- Behind the first two bytes nothing is searched; a string of less than three is left behind. -/
lemma findCRLF_eq (str : CString) : findCRLF str =
    if LineEnd str 0 then .ok 0
    else if 3 ≤ str.bytes.length then .ok (-1)
    else .error .overrun := by
  rw [findCRLF]
  by_cases h : LineEnd str 0
  · rw [if_pos h]
    exact loop_of_lineEnd h
  · rw [if_neg h, loop_of_not_lineEnd (Nat.zero_le _) h]
    by_cases hlong : 3 ≤ str.bytes.length
    · rw [if_pos (by omega), if_pos hlong]
    · rw [if_neg (by omega), if_neg hlong]
      by_cases htwo : 0 + 2 = str.bytes.length
      · -- the second byte is the last one, and the test reads behind the terminator
        have hend : ¬LineEnd str 1 := fun hend => by
          have hlt := hend.lt
          omega
        rw [if_pos htwo, loop_of_not_lineEnd (by omega) hend, if_neg (by omega),
          if_neg (by omega)]
      · rw [if_neg htwo]

/-- The search is right for a string that begins with a line end, and for one of three bytes or
more that has none. -/
theorem findCRLF_firstLineEnd_iff (str : CString) :
    (∃ r, findCRLF str = .ok r ∧ FirstLineEnd str r) ↔
      LineEnd str 0 ∨ 3 ≤ str.bytes.length ∧ ∀ p, ¬LineEnd str p := by
  rw [findCRLF_eq]
  constructor
  · rintro ⟨r, hr, hfirst⟩
    by_cases h : LineEnd str 0
    · exact .inl h
    · rw [if_neg h] at hr
      by_cases hlong : 3 ≤ str.bytes.length
      · rw [if_pos hlong] at hr
        cases hr
        rcases hfirst with ⟨p, hp, -⟩ | ⟨-, hnone⟩
        · omega
        · exact .inr ⟨hlong, hnone⟩
      · rw [if_neg hlong] at hr
        cases hr
  · rintro (h | ⟨hlong, hnone⟩)
    · exact ⟨0, if_pos h, .inl ⟨0, rfl, h, fun q hq => absurd hq (Nat.not_lt_zero q)⟩⟩
    · exact ⟨-1, by rw [if_neg (hnone 0), if_pos hlong], .inr ⟨rfl, hnone⟩⟩

/-- `"G\r\n"` has a line end that is not found, and of the empty string a byte behind the
terminator is read. -/
theorem findCRLF_misses_lineEnd :
    (∃ str : CString, str.bytes = literal "G\r\n" ∧ findCRLF str = .ok (-1) ∧
      FirstLineEnd str 1) ∧
    ∃ str : CString, str.bytes = [] ∧ findCRLF str = .error .overrun := by
  refine ⟨⟨⟨literal "G\r\n", by decide⟩, rfl, ?_, ?_⟩, ⟨[], by decide⟩, rfl, ?_⟩
  · rw [findCRLF_eq]
    decide
  · refine .inl ⟨1, rfl, by decide, ?_⟩
    intro q hq
    obtain rfl : q = 0 := by omega
    decide
  · rw [findCRLF_eq]
    decide

/-- The request line is looked at without an overrun if it begins with a line end, or has at least
three bytes. -/
theorem parseResquest_ok_iff (str : CString) (parseState : ResquestParseState) :
    parseResquest str parseState = .ok () ↔
      parseState ≠ .Http_ResLine ∨ LineEnd str 0 ∨ 3 ≤ str.bytes.length := by
  rw [parseResquest, findCRLF_eq]
  by_cases hstate : parseState = .Http_ResLine
  · rw [if_pos hstate]
    by_cases h : LineEnd str 0
    · simp [h]
    · by_cases hlong : 3 ≤ str.bytes.length <;> simp [hstate, h, hlong, Except.map]
  · simp [hstate]

end ClwServer.Http
