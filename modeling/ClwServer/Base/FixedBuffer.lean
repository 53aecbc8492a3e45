import ClwServer.Core.Cpp

/-!
# `FixedBuffer`

The fixed array of `LogStream.h` with its `cur` pointer. What is stored lies between `buf` and
`cur`; that it fits the array is part of the type.
-/

namespace ClwServer

open Cpp

def kSmallBuffer : ℕ := 4000

def kLargeBuffer : ℕ := 4000 * 1000

/-- `FixedBuffer<SIZE>`: the bytes between `buf` and `cur`. -/
structure FixedBuffer (SIZE : ℕ) where
  data : List Byte
  fits : data.length ≤ SIZE
  deriving DecidableEq

namespace FixedBuffer

variable {SIZE : ℕ}

/-- A new buffer. -/
def empty : FixedBuffer SIZE := ⟨[], Nat.zero_le _⟩

def length (b : FixedBuffer SIZE) : ℤ := b.data.length

def avail (b : FixedBuffer SIZE) : ℤ := SIZE - b.data.length

/-- The test compares `int`s, while `memcpy` takes the `size_t` as it is. -/
def append (b : FixedBuffer SIZE) (buf_ : List Byte) : Except Fault (FixedBuffer SIZE) :=
  if sizeToInt buf_.length < b.avail then
    if h : b.data.length + buf_.length ≤ SIZE then
      .ok ⟨b.data ++ buf_, by rwa [List.length_append]⟩
    else
      .error .overrun
  else
    .ok b

/-- `text` is stored at `current()` with a terminator behind it, and `add(len)` counts it in
without the terminator. -/
def addText (b : FixedBuffer SIZE) (text : List Byte) : Except Fault (FixedBuffer SIZE) :=
  if h : b.data.length + text.length + 1 ≤ SIZE then
    .ok ⟨b.data ++ text, by
      rw [List.length_append]
      omega⟩
  else
    .error .overrun

def reset (_ : FixedBuffer SIZE) : FixedBuffer SIZE := empty

@[ext] lemma ext {b b' : FixedBuffer SIZE} (h : b.data = b'.data) : b = b' := by
  cases b
  cases b'
  simpa using h

/-- A text that passes the test is stored behind what was there. -/
lemma append_of_lt {b : FixedBuffer SIZE} {buf_ : List Byte} (hlen : buf_.length < 2 ^ 31)
    (h : (buf_.length : ℤ) < b.avail) :
    ∃ b', b.append buf_ = .ok b' ∧ b'.data = b.data ++ buf_ := by
  have hfit : b.data.length + buf_.length ≤ SIZE := by
    simp only [avail] at h
    omega
  exact ⟨⟨b.data ++ buf_, by rwa [List.length_append]⟩,
    by simp only [append, sizeToInt_of_lt hlen, if_pos h, dif_pos hfit], rfl⟩

/-- A text that fails the test is left out. -/
lemma append_of_le {b : FixedBuffer SIZE} {buf_ : List Byte}
    (h : b.avail ≤ sizeToInt buf_.length) : b.append buf_ = .ok b := by
  rw [append, if_neg (by omega)]

/-- A text of 2 GiB or more that passes the test is copied past the end of the array. -/
lemma append_overrun {b : FixedBuffer SIZE} {buf_ : List Byte} (hSIZE : SIZE < 2 ^ 31)
    (hlen : 2 ^ 31 ≤ buf_.length) (h : sizeToInt buf_.length < b.avail) :
    b.append buf_ = .error .overrun := by
  rw [append, if_pos h, dif_neg (by omega)]

/-- `append` keeps to the array exactly as long as a text of 2 GiB or more fails the test. -/
lemma append_ok_iff {b : FixedBuffer SIZE} {buf_ : List Byte} (hSIZE : SIZE < 2 ^ 31) :
    (∃ b', b.append buf_ = .ok b') ↔
      buf_.length < 2 ^ 31 ∨ b.avail ≤ sizeToInt buf_.length := by
  by_cases hle : b.avail ≤ sizeToInt buf_.length
  · exact ⟨fun _ => .inr hle, fun _ => ⟨b, append_of_le hle⟩⟩
  · by_cases hlen : buf_.length < 2 ^ 31
    · rw [sizeToInt_of_lt hlen, Int.not_le] at hle
      obtain ⟨b', happ, -⟩ := append_of_lt hlen hle
      exact ⟨fun _ => .inl hlen, fun _ => ⟨b', happ⟩⟩
    · rw [append_overrun hSIZE (by omega) (by omega)]
      constructor
      · rintro ⟨b', hb'⟩
        cases hb'
      · rintro (h | h)
        · exact absurd h hlen
        · exact absurd h hle

lemma addText_of_lt {b : FixedBuffer SIZE} {text : List Byte}
    (h : (text.length : ℤ) < b.avail) :
    ∃ b', b.addText text = .ok b' ∧ b'.data = b.data ++ text := by
  have hfit : b.data.length + text.length + 1 ≤ SIZE := by
    simp only [avail] at h
    omega
  exact ⟨_, by rw [addText, dif_pos hfit], rfl⟩

/-- An empty buffer takes every text shorter than the array. -/
lemma append_of_empty {b : FixedBuffer SIZE} {buf_ : List Byte} (hb : b.data = [])
    (hlen : buf_.length < 2 ^ 31) (h : buf_.length < SIZE) :
    ∃ b', b.append buf_ = .ok b' ∧ b'.data = buf_ := by
  have havail : (buf_.length : ℤ) < b.avail := by
    simp only [avail, hb, List.length_nil]
    omega
  obtain ⟨b', happ, hdata⟩ := append_of_lt hlen havail
  exact ⟨b', happ, by rw [hdata, hb, List.nil_append]⟩

end FixedBuffer

end ClwServer
