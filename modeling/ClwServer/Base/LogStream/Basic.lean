import ClwServer.Base.FixedBuffer
import ClwServer.Base.LogStream.Convert

/-!
# `LogStream`

The insertions of `LogStream.cc`, on a buffer of any size. A text is taken by
`FixedBuffer::append`; a number is written first, where 32 bytes are free, and counted afterwards.
-/

namespace ClwServer.LogStream

open Cpp

/-- The free space a number asks for. -/
def kMaxNumericSize : ℤ := 32

/-- What `snprintf` makes of some `double` with `"%.12g"`: a sign, twelve digits and a point, and
an exponent of three digits at the most. -/
structure FloatText where
  text : List Byte
  short : text.length ≤ 19
  deriving DecidableEq

/-- The overloads of `operator<<`. A `const unsigned char *` is treated as a `const char *`, and a
`float` as a `double`; a `long double` meets a format for `double`, which prints some value. -/
inductive Insertion
  | bool (v : Bool)
  | short (v : Int16)
  | unsignedShort (v : UInt16)
  | int (v : Int32)
  | unsignedInt (v : UInt32)
  | long (v : Int64)
  | unsignedLong (v : UInt64)
  | longLong (v : Int64)
  | unsignedLongLong (v : UInt64)
  | double (v : FloatText)
  | longDouble (v : FloatText)
  | char (v : Byte)
  /-- The characters in front of the terminator, or a null pointer. -/
  | cstr (str : Option (List Byte))
  | string (v : List Byte)
  deriving DecidableEq

variable {SIZE : ℕ}

/-- `formatInteger` -/
def formatInteger (b : FixedBuffer SIZE) (v : ℤ) : Except Fault (FixedBuffer SIZE) :=
  if kMaxNumericSize ≤ b.avail then do
    let text ← convert v
    b.addText text
  else
    .ok b

/-- The overloads for `double` and `long double`. -/
def formatFloat (b : FixedBuffer SIZE) (v : FloatText) : Except Fault (FixedBuffer SIZE) :=
  if kMaxNumericSize ≤ b.avail then b.addText v.text else .ok b

/-- `operator<<` -/
def insert (b : FixedBuffer SIZE) : Insertion → Except Fault (FixedBuffer SIZE)
  | .bool v => b.append (if v then literal "1" else literal "0")
  | .short v => formatInteger b v.toInt32.toInt
  | .unsignedShort v => formatInteger b v.toUInt32.toNat
  | .int v => formatInteger b v.toInt
  | .unsignedInt v => formatInteger b v.toNat
  | .long v | .longLong v => formatInteger b v.toInt
  | .unsignedLong v | .unsignedLongLong v => formatInteger b v.toNat
  | .double v | .longDouble v => formatFloat b v
  | .char v => b.append [v]
  | .cstr (some str) => b.append str
  | .cstr none => b.append (literal "(null)")
  | .string v => b.append v

/-- A sequence of insertions. -/
def insertAll (b : FixedBuffer SIZE) (is : List Insertion) : Except Fault (FixedBuffer SIZE) :=
  is.foldlM insert b

/-! ### Three kinds of insertions -/

/-- What an insertion amounts to. -/
inductive Item
  | text (bytes : List Byte)
  | integer (value : ℤ)
  | float (v : FloatText)
  deriving DecidableEq

def Insertion.item : Insertion → Item
  | .bool v => .text (if v then literal "1" else literal "0")
  | .short v => .integer v.toInt
  | .unsignedShort v => .integer v.toNat
  | .int v => .integer v.toInt
  | .unsignedInt v => .integer v.toNat
  | .long v | .longLong v => .integer v.toInt
  | .unsignedLong v | .unsignedLongLong v => .integer v.toNat
  | .double v | .longDouble v => .float v
  | .char v => .text [v]
  | .cstr (some str) => .text str
  | .cstr none => .text (literal "(null)")
  | .string v => .text v

def insertItem (b : FixedBuffer SIZE) : Item → Except Fault (FixedBuffer SIZE)
  | .text bytes => b.append bytes
  | .integer value => formatInteger b value
  | .float v => formatFloat b v

lemma insert_eq (b : FixedBuffer SIZE) (i : Insertion) : insert b i = insertItem b i.item := by
  cases i with
  | short v => simp [insert, Insertion.item, insertItem]
  | unsignedShort v => simp [insert, Insertion.item, insertItem]
  | cstr str => cases str <;> rfl
  | _ => rfl

/-- The integers among the insertions have the values of the integral types. -/
lemma integral_of_item {i : Insertion} {value : ℤ} (h : i.item = .integer value) :
    Integral value := by
  cases i with
  | short v | int v | long v | longLong v =>
    obtain rfl := Item.integer.inj h
    have hlt := v.toInt_lt
    have hle := v.le_toInt
    constructor <;> omega
  | unsignedShort v | unsignedInt v | unsignedLong v | unsignedLongLong v =>
    obtain rfl := Item.integer.inj h
    have hlt := v.toNat_lt
    constructor <;> omega
  | cstr str => cases str <;> cases h
  | bool | double | longDouble | char | string => cases h

/-- A number is written into the free space that was asked for. -/
lemma formatInteger_spec {b : FixedBuffer SIZE} {value : ℤ} (h : Integral value) :
    ∃ text, convert value = .ok text ∧ ∃ b', formatInteger b value = .ok b' ∧
      b'.data = if kMaxNumericSize ≤ b.avail then b.data ++ text else b.data := by
  obtain ⟨text, htext, -, hlen⟩ := convert_spec h
  refine ⟨text, htext, ?_⟩
  by_cases hroom : kMaxNumericSize ≤ b.avail
  · have hlt : (text.length : ℤ) < b.avail := by
      simp only [kMaxNumericSize] at hroom
      omega
    obtain ⟨b', hadd, hdata⟩ := FixedBuffer.addText_of_lt hlt
    refine ⟨b', ?_, by rw [if_pos hroom, hdata]⟩
    rw [formatInteger, if_pos hroom, htext, ok_bind, hadd]
  · exact ⟨b, by rw [formatInteger, if_neg hroom], by rw [if_neg hroom]⟩

lemma formatFloat_spec {b : FixedBuffer SIZE} (v : FloatText) :
    ∃ b', formatFloat b v = .ok b' ∧
      b'.data = if kMaxNumericSize ≤ b.avail then b.data ++ v.text else b.data := by
  by_cases hroom : kMaxNumericSize ≤ b.avail
  · have hlt : (v.text.length : ℤ) < b.avail := by
      have hshort := v.short
      simp only [kMaxNumericSize] at hroom
      omega
    obtain ⟨b', hadd, hdata⟩ := FixedBuffer.addText_of_lt hlt
    exact ⟨b', by rw [formatFloat, if_pos hroom, hadd], by rw [if_pos hroom, hdata]⟩
  · exact ⟨b, by rw [formatFloat, if_neg hroom], by rw [if_neg hroom]⟩

end ClwServer.LogStream
