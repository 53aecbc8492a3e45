import ClwServer.Base.LogStream.Basic

/-!
# The end of the array

The space that is asked for a number is enough for every number. The test of a text converts its
length to `int`: a length from 2 GiB on may become a negative number, or lose a multiple of 4 GiB,
and pass the test of a buffer it does not fit.
-/

namespace ClwServer.LogStream

open Cpp

/-- A call that changes a buffer. -/
inductive Op
  | insert (i : Insertion)
  | append (buf_ : List Byte)
  | reset
  deriving DecidableEq

variable {SIZE : ℕ}

def Op.run (b : FixedBuffer SIZE) : Op → Except Fault (FixedBuffer SIZE)
  | .insert i => LogStream.insert b i
  | .append buf_ => b.append buf_
  | .reset => .ok b.reset

def runAll (b : FixedBuffer SIZE) (ops : List Op) : Except Fault (FixedBuffer SIZE) :=
  ops.foldlM Op.run b

/-- The text that is passed to `FixedBuffer::append`, if there is one. -/
def Op.text? : Op → Option (List Byte)
  | .insert i =>
    match i.item with
    | .text bytes => some bytes
    | .integer _ | .float _ => none
  | .append buf_ => some buf_
  | .reset => none

/-- A text of 2 GiB or more is refused, because of what the conversion to `int` makes of its
length. -/
def Op.Safe (b : FixedBuffer SIZE) (op : Op) : Prop :=
  ∀ text, op.text? = some text → text.length < 2 ^ 31 ∨ b.avail ≤ sizeToInt text.length

lemma run_ok_iff {b : FixedBuffer SIZE} {op : Op} (hSIZE : SIZE < 2 ^ 31) :
    (∃ b', op.run b = .ok b') ↔ op.Safe b := by
  cases op with
  | reset =>
    constructor
    · rintro - text ⟨⟩
    · intro _
      exact ⟨_, rfl⟩
  | append buf_ =>
    simp only [Op.Safe, Op.text?, Option.some.injEq, forall_eq']
    exact FixedBuffer.append_ok_iff hSIZE
  | insert i =>
    simp only [Op.run, insert_eq, Op.Safe, Op.text?]
    cases hitem : i.item with
    | text bytes =>
      simp only [Option.some.injEq, forall_eq']
      exact FixedBuffer.append_ok_iff hSIZE
    | integer value =>
      obtain ⟨-, -, b', hformat, -⟩ := formatInteger_spec (b := b) (integral_of_item hitem)
      simpa using ⟨b', hformat⟩
    | float v =>
      obtain ⟨b', hformat, -⟩ := formatFloat_spec (b := b) v
      simpa using ⟨b', hformat⟩

/-- A history of calls never leaves the array if and only if every text of 2 GiB or more in it is
refused where it comes. -/
theorem runAll_ok_iff {b : FixedBuffer SIZE} {ops : List Op} (hSIZE : SIZE < 2 ^ 31) :
    (∃ b', runAll b ops = .ok b') ↔ ∀ pre op post, ops = pre ++ op :: post →
      ∀ c, runAll b pre = .ok c → op.Safe c := by
  rw [runAll, foldlM_ok_iff]
  constructor
  · intro h pre op post hops c hc
    exact (run_ok_iff hSIZE).mp (h pre op post hops c hc)
  · intro h pre op post hops c hc
    exact (run_ok_iff hSIZE).mpr (h pre op post hops c hc)

/-- A short text and a number. -/
theorem runAll_ok_iff_short : ∃ b', runAll (.empty : FixedBuffer kSmallBuffer)
    [.append (literal "x = "), .insert (.int (-7))] = .ok b' := by
  refine (runAll_ok_iff (by decide)).mpr ?_
  rintro pre op post hops c - text htext
  left
  have hmem : op ∈ [Op.append (literal "x = "), .insert (.int (-7))] := by
    rw [hops]
    simp
  obtain rfl | rfl : op = .append (literal "x = ") ∨ op = .insert (.int (-7)) := by
    simpa using hmem
  · cases htext
    decide
  · cases htext

/-- The length of a text of 2 GiB is a negative number for the test. -/
theorem insert_overrun : insert (.empty : FixedBuffer kSmallBuffer)
    (.string (List.replicate (2 ^ 31) 65)) = .error .overrun := by
  have hlen : (List.replicate (2 ^ 31) (65 : Byte)).length = 2 ^ 31 := List.length_replicate
  apply FixedBuffer.append_overrun (by decide)
  · rw [hlen]
  · rw [hlen]
    decide

end ClwServer.LogStream
