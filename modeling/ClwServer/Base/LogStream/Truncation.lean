import ClwServer.Base.LogStream.Content
import ClwServer.Base.LogStream.Decimal
import ClwServer.Base.LogStream.Overrun

/-!
# Truncation by whole items

A stream as a list: the items that were taken since the last reset. The buffer holds their texts,
one behind the other.
-/

namespace ClwServer.LogStream

open Cpp

/-- The text of an item: an integer in decimal. -/
def Item.characters : Item → List Byte
  | .text bytes => bytes
  | .integer value => Decimal.ofInt value
  | .float v => v.text

/-- What the items `items` leave in a buffer. -/
def content (items : List Item) : List Byte := items.flatMap Item.characters

/-- The item a call stores; a reset stores none. -/
def Op.item? : Op → Option Item
  | .insert i => some i.item
  | .append buf_ => some (.text buf_)
  | .reset => none

/-- What a call does to the list. -/
def takeItem (SIZE : ℕ) (items : List Item) (op : Op) : List Item :=
  match op.item? with
  | some i => if i.Fits SIZE (content items).length then items ++ [i] else items
  | none => []

/-- The items that are accepted and not reset. -/
def accepted (SIZE : ℕ) (ops : List Op) : List Item := ops.foldl (takeItem SIZE) []

/-- A text that is passed to `FixedBuffer::append` has less than 2 GiB. -/
def Op.Short (op : Op) : Prop := ∀ text, op.text? = some text → text.length < 2 ^ 31

variable {SIZE : ℕ} {b : FixedBuffer SIZE} {op : Op} {items : List Item}

lemma rendering_eq (i : Item) : i.rendering = i.characters := by
  cases i with
  | text | float => rfl
  | integer value =>
    rw [Item.rendering, convert_eq]
    rfl

lemma content_concat (items : List Item) (i : Item) :
    content (items ++ [i]) = content items ++ i.characters := by
  simp [content]

/-- A call stores its item as a whole, or leaves the buffer as it is. -/
lemma run_item {i : Item} (hop : op.Short) (hi : op.item? = some i) :
    ∃ b', op.run b = .ok b' ∧
      b'.data = if i.Fits SIZE b.data.length then b.data ++ i.characters else b.data := by
  cases op with
  | reset => cases hi
  | append buf_ =>
    cases hi
    exact append_spec (hop buf_ rfl)
  | insert ins =>
    cases hi
    have hshort : ins.Short := by
      intro bytes hbytes
      refine hop bytes ?_
      simp only [Op.text?, hbytes]
    obtain ⟨b', hb', hdata⟩ := insert_spec (b := b) hshort
    exact ⟨b', hb', by rw [hdata, take, rendering_eq]⟩

/-- An item that is taken leaves a byte of the array free. -/
lemma length_lt_of_fits {i : Item} {n : ℕ} (hfits : i.Fits SIZE n)
    (hint : ∀ value, i = .integer value → Integral value) : n + i.characters.length < SIZE := by
  cases i with
  | text bytes =>
    simp only [Item.Fits] at hfits
    show n + bytes.length < SIZE
    omega
  | integer value =>
    obtain ⟨text, htext, -, hlen⟩ := convert_spec (hint value rfl)
    obtain rfl := Except.ok.inj ((convert_eq value).symm.trans htext)
    simp only [Item.Fits, kMaxNumericSize] at hfits
    show n + (Decimal.ofInt value).length < SIZE
    omega
  | float v =>
    have hshort := v.short
    simp only [Item.Fits, kMaxNumericSize] at hfits
    show n + v.text.length < SIZE
    omega

lemma integral_of_op {value : ℤ} (h : op.item? = some (.integer value)) : Integral value := by
  cases op with
  | insert i => exact integral_of_item (Option.some.inj h)
  | append | reset => cases h

/-- The buffer has the texts of the items of the list, and a byte left. -/
structure Holds (items : List Item) (b : FixedBuffer SIZE) : Prop where
  data : b.data = content items
  lt : b.data.length < SIZE

lemma Holds.run (h : Holds items b) (hop : op.Short) :
    ∃ b', op.run b = .ok b' ∧ Holds (takeItem SIZE items op) b' := by
  cases hitem : op.item? with
  | none =>
    cases op with
    | insert | append => cases hitem
    | reset => exact ⟨_, rfl, ⟨rfl, Nat.lt_of_le_of_lt (Nat.zero_le _) h.lt⟩⟩
  | some i =>
    obtain ⟨b', hb', hdata⟩ := run_item (b := b) hop hitem
    refine ⟨b', hb', ?_⟩
    rw [takeItem, hitem]
    simp only
    rw [← h.data]
    by_cases hfits : i.Fits SIZE b.data.length
    · rw [if_pos hfits] at hdata ⊢
      refine ⟨by rw [hdata, content_concat, h.data], ?_⟩
      rw [hdata, List.length_append]
      exact length_lt_of_fits hfits fun value hvalue => integral_of_op (hvalue ▸ hitem)
    · rw [if_neg hfits] at hdata ⊢
      exact ⟨hdata.trans h.data, hdata ▸ h.lt⟩

lemma Holds.runAll {ops : List Op} (h : Holds items b) (hops : ∀ op ∈ ops, op.Short) :
    ∃ b', runAll b ops = .ok b' ∧ Holds (ops.foldl (takeItem SIZE) items) b' := by
  induction ops generalizing b items with
  | nil => exact ⟨b, rfl, h⟩
  | cons op ops ih =>
    obtain ⟨c, hc, hholds⟩ := h.run (hops op (List.mem_cons_self ..))
    obtain ⟨b', hb', hholds'⟩ := ih hholds fun op' hop' => hops op' (List.mem_cons_of_mem _ hop')
    refine ⟨b', ?_, hholds'⟩
    rw [LogStream.runAll, List.foldlM_cons, hc, ok_bind]
    exact hb'

/-- Whatever is inserted, the content of a stream consists of the texts of the items that were
accepted since the last reset, a refused item changes nothing, and a byte stays free. -/
theorem runAll_whole_items {ops : List Op} (h : ∀ op ∈ ops, op.Short) :
    (∃ b, runAll (.empty : FixedBuffer kSmallBuffer) ops = .ok b ∧
      b.data = content (accepted kSmallBuffer ops) ∧ b.data.length ≤ kSmallBuffer - 1) ∧
    ∀ pre op post i, ops = pre ++ op :: post → op.item? = some i →
      ∃ b b', runAll (.empty : FixedBuffer kSmallBuffer) pre = .ok b ∧ op.run b = .ok b' ∧
        b'.data = if i.Fits kSmallBuffer b.data.length then b.data ++ i.characters
          else b.data := by
  have hempty : Holds [] (.empty : FixedBuffer kSmallBuffer) := ⟨rfl, by decide⟩
  constructor
  · obtain ⟨b, hb, hholds⟩ := hempty.runAll h
    exact ⟨b, hb, hholds.data, Nat.le_sub_one_of_lt hholds.lt⟩
  · rintro pre op post i rfl hitem
    have hpre : ∀ op' ∈ pre, op'.Short := fun op' hop' => h op' (by simp [hop'])
    obtain ⟨b, hb, -⟩ := hempty.runAll hpre
    obtain ⟨b', hb', hdata⟩ := run_item (b := b) (h op (by simp)) hitem
    exact ⟨b, b', hb, hb', hdata⟩

/-- A null pointer, a reset, and two items behind it. -/
theorem runAll_whole_items_reset : ∃ b, runAll (.empty : FixedBuffer kSmallBuffer)
    [.insert (.cstr none), .reset, .insert (.bool true), .insert (.int (-7))] = .ok b ∧
      b.data = literal "1-7" ∧ b.data.length ≤ kSmallBuffer - 1 := by
  have hshort : ∀ op ∈ [Op.insert (.cstr none), .reset, .insert (.bool true),
      .insert (.int (-7))], op.Short := by
    intro op hop text htext
    simp only [List.mem_cons, List.not_mem_nil, or_false] at hop
    obtain rfl | rfl | rfl | rfl := hop <;> cases htext <;> decide
  have hcontent : content (accepted kSmallBuffer [.insert (.cstr none), .reset,
      .insert (.bool true), .insert (.int (-7))]) = literal "1-7" := by decide
  obtain ⟨b, hb, hdata, hlen⟩ := (runAll_whole_items hshort).1
  exact ⟨b, hb, hdata.trans hcontent, hlen⟩

end ClwServer.LogStream
