import ClwServer.Base.LogStream.Basic

/-!
# Whole items

What a stream is for, without its buffer: an item is taken as a whole or left out as a whole, and
the bytes that are stored are those of the items that were taken. The stream keeps to this as long
as no text has 2 GiB or more.
-/

namespace ClwServer.LogStream

open Cpp

/-- The bytes of an item. -/
def Item.rendering : Item → List Byte
  | .text bytes => bytes
  | .integer value => (convert value).toOption.getD []
  | .float v => v.text

/-- The item is taken where `n` bytes are stored: a text needs one byte more than it has, and a
number the space `kMaxNumericSize`. -/
def Item.Fits (SIZE n : ℕ) : Item → Prop
  | .text bytes => (bytes.length : ℤ) < SIZE - n
  | .integer _ | .float _ => kMaxNumericSize ≤ (SIZE : ℤ) - n

instance (SIZE n : ℕ) (i : Item) : Decidable (i.Fits SIZE n) := by
  cases i <;> unfold Item.Fits <;> infer_instance

/-- What is stored behind an insertion. -/
def take (SIZE : ℕ) (data : List Byte) (i : Insertion) : List Byte :=
  if i.item.Fits SIZE data.length then data ++ i.item.rendering else data

/-- What is stored behind a sequence of insertions. -/
def takeAll (SIZE : ℕ) (data : List Byte) (is : List Insertion) : List Byte :=
  is.foldl (take SIZE) data

/-- A text of less than 2 GiB. -/
def Insertion.Short (i : Insertion) : Prop := ∀ bytes, i.item = .text bytes → bytes.length < 2 ^ 31

variable {SIZE : ℕ}

lemma append_spec {b : FixedBuffer SIZE} {bytes : List Byte} (hlen : bytes.length < 2 ^ 31) :
    ∃ b', b.append bytes = .ok b' ∧
      b'.data = if (Item.text bytes).Fits SIZE b.data.length then b.data ++ bytes else b.data := by
  by_cases hfits : (bytes.length : ℤ) < b.avail
  · obtain ⟨b', happ, hdata⟩ := FixedBuffer.append_of_lt hlen hfits
    exact ⟨b', happ, by rw [hdata]; exact (if_pos hfits).symm⟩
  · refine ⟨b, ?_, (if_neg hfits).symm⟩
    apply FixedBuffer.append_of_le
    rw [sizeToInt_of_lt hlen]
    omega

lemma insert_spec {b : FixedBuffer SIZE} {i : Insertion} (h : i.Short) :
    ∃ b', insert b i = .ok b' ∧ b'.data = take SIZE b.data i := by
  rw [insert_eq, take]
  cases hitem : i.item with
  | text bytes => exact append_spec (h bytes hitem)
  | integer value =>
    obtain ⟨text, htext, b', hformat, hdata⟩ := formatInteger_spec (b := b) (integral_of_item hitem)
    refine ⟨b', hformat, ?_⟩
    rw [hdata, Item.rendering, htext]
    rfl
  | float v => exact formatFloat_spec v

/-- The stream stores the bytes of the items it takes. -/
lemma insertAll_spec {b : FixedBuffer SIZE} {is : List Insertion} (h : ∀ i ∈ is, i.Short) :
    ∃ b', insertAll b is = .ok b' ∧ b'.data = takeAll SIZE b.data is := by
  induction is generalizing b with
  | nil => exact ⟨b, rfl, rfl⟩
  | cons i is ih =>
    obtain ⟨c, hc, hdata⟩ := insert_spec (b := b) (h i (by simp))
    obtain ⟨b', hb', hdata'⟩ := ih (b := c) fun j hj => h j (by simp [hj])
    refine ⟨b', ?_, ?_⟩
    · rw [insertAll, List.foldlM_cons, hc, ok_bind]
      exact hb'
    · rw [hdata', hdata]
      rfl

end ClwServer.LogStream
