import Mathlib.Logic.Function.Basic
import ClwServer.Core.Reader
import ClwServer.Base.Logging
import ClwServer.Base.LogStream.Truncation

/-!
# Reading the records back

Any number of threads log, each with the time cache of its own, and the records go to one output.
Nothing but their own bytes separates the fields of a record, and the records from each other:
they are read back where a file has no colon in its name, a message has no end of line, and there
is room for the header and the end of the line.
-/

namespace ClwServer.Logger

open Cpp LogStream

/-- A use of a logger: `Logger(level, file, line).stream() << ...;` at the second `time`. -/
structure Use where
  time : ℤ
  level : LogLevel
  file : List Byte
  line : Int32
  items : List Insertion
  deriving DecidableEq

/-- What the threads pass to `output`, for their uses of loggers in the order of these calls. -/
def logAll (localtime : ℤ → TimeText) :
    (ℕ → TimeCache) → List (ℕ × Use) → Except Fault (List (List Byte))
  | _, [] => .ok []
  | caches, (tid, u) :: us => do
    let record ← log (caches tid) u.time localtime u.level u.file u.line u.items
    let records ← logAll localtime
      (Function.update caches tid ((caches tid).formatTime u.time localtime)) us
    .ok (record :: records)

/-! ### What a record says -/

def colon : Byte := 58

def space : Byte := 32

def newline : Byte := 10

structure Record where
  time : List Byte
  level : LogLevel
  file : List Byte
  line : ℤ
  text : List Byte
  deriving DecidableEq

def readRecord : Reader Byte Record := do
  let time ← Reader.exactly 19
  let level ← Reader.oneOf LogLevelName [.INFO, .WARN, .ERROR]
  let file ← Reader.upTo colon
  let line ← Reader.upTo space
  let text ← Reader.upTo newline
  pure ⟨time, level, file, Decimal.readInt line, text⟩

/-- The records of an output. -/
def readLog (output : List Byte) : Option (List Record) := Reader.all readRecord output

/-- The text of the items that are taken where `n` bytes are stored. -/
def textBehind (SIZE : ℕ) : ℕ → List Insertion → List Byte
  | _, [] => []
  | n, i :: is =>
    if i.item.Fits SIZE n then
      i.item.characters ++ textBehind SIZE (n + i.item.characters.length) is
    else textBehind SIZE n is

/-- What the constructor of the logger writes, where it has room. -/
def Use.headerText (localtime : ℤ → TimeText) (u : Use) : List Byte :=
  (localtime u.time).text ++ (LogLevelName u.level ++ (u.file ++ [colon] ++
    (Decimal.ofInt u.line.toInt ++ [space])))

/-- The text behind the header. -/
def Use.text (localtime : ℤ → TimeText) (u : Use) : List Byte :=
  textBehind kSmallBuffer (u.headerText localtime).length u.items

/-- What `output` gets, where the end of the line has room. -/
def Use.output (localtime : ℤ → TimeText) (u : Use) : List Byte :=
  u.headerText localtime ++ u.text localtime ++ [newline]

def Use.record (localtime : ℤ → TimeText) (u : Use) : Record :=
  ⟨(localtime u.time).text, u.level, u.file, u.line.toInt, u.text localtime⟩

/-- What a use has to keep to, to be read back. -/
structure Use.Readable (localtime : ℤ → TimeText) (u : Use) : Prop where
  /-- A thread that has not logged has an empty text for the second 0. -/
  time : u.time ≠ 0
  date : (localtime u.time).text.length = 19
  file : colon ∉ u.file
  short : ∀ i ∈ u.items, i.Short
  /-- The header fits, with the space a number asks for. -/
  header : (u.headerText localtime).length + 32 ≤ kSmallBuffer
  line : newline ∉ u.text localtime
  /-- The end of the line fits. -/
  room : (u.headerText localtime ++ u.text localtime).length + 1 < kSmallBuffer

variable {SIZE n : ℕ} {localtime : ℤ → TimeText} {u : Use} {c : TimeCache}

/-! ### Writing -/

lemma takeAll_eq (data : List Byte) (is : List Insertion) :
    takeAll SIZE data is = data ++ textBehind SIZE data.length is := by
  induction is generalizing data with
  | nil => exact (List.append_nil data).symm
  | cons i is ih =>
    rw [takeAll, List.foldl_cons, ← takeAll, ih, take, textBehind, rendering_eq]
    by_cases hfits : i.item.Fits SIZE data.length
    · rw [if_pos hfits, if_pos hfits, List.length_append, List.append_assoc]
    · rw [if_neg hfits, if_neg hfits]

/-- Nothing is left out where there is room for everything and a number. -/
lemma textBehind_of_le {is : List Insertion}
    (h : n + (is.flatMap (·.item.characters)).length + 32 ≤ SIZE) :
    textBehind SIZE n is = is.flatMap (·.item.characters) := by
  induction is generalizing n with
  | nil => rfl
  | cons i is ih =>
    rw [List.flatMap_cons, List.length_append] at h
    have hfits : i.item.Fits SIZE n := by
      cases hitem : i.item with
      | text bytes =>
        rw [hitem] at h
        simp only [Item.Fits, Item.characters] at h ⊢
        omega
      | integer | float =>
        simp only [Item.Fits, kMaxNumericSize]
        omega
    rw [textBehind, if_pos hfits, List.flatMap_cons, ih (by omega)]

lemma stored_eq (h : (u.headerText localtime).length + 32 ≤ kSmallBuffer) :
    stored (localtime u.time) u.level u.file u.line u.items =
      u.headerText localtime ++ u.text localtime := by
  have hheader : (header (localtime u.time) u.level u.file u.line).flatMap
      (·.item.characters) = u.headerText localtime := by
    simp only [header, List.flatMap_cons, List.flatMap_nil, Insertion.item, Item.characters,
      Use.headerText, List.append_assoc, List.append_nil]
    rfl
  rw [stored, takeAll, List.foldl_append, ← takeAll, ← takeAll, takeAll_eq, takeAll_eq,
    List.nil_append, textBehind_of_le (by rw [hheader, List.length_nil]; omega), hheader]
  rfl

/-- The cache has the text of its second, unless this is still the second 0. -/
def TimeCache.Valid (localtime : ℤ → TimeText) (c : TimeCache) : Prop :=
  c.t_lastSecond ≠ 0 → c.t_time = localtime c.t_lastSecond

lemma valid_zero : TimeCache.zero.Valid localtime := fun h => absurd rfl h

lemma TimeCache.Valid.formatTime (hc : c.Valid localtime) {time : ℤ} (h : time ≠ 0) :
    c.formatTime time localtime = ⟨time, localtime time⟩ := by
  rw [TimeCache.formatTime]
  by_cases htime : c.t_lastSecond = time
  · subst htime
    rw [if_neg (not_not.mpr rfl), ← hc h]
  · rw [if_pos htime]

lemma log_eq (hc : c.Valid localtime) (hu : u.Readable localtime) :
    log c u.time localtime u.level u.file u.line u.items =
      .ok (u.output localtime) := by
  have hfile : u.file.length < 2 ^ 31 := by
    have hheader := hu.header
    simp only [Use.headerText, List.length_append, kSmallBuffer] at hheader
    omega
  obtain ⟨record, hrecord, hfinish⟩ := log_spec c u.time localtime u.level u.line hfile hu.short
  rw [hrecord, hfinish, hc.formatTime hu.time, stored_eq hu.header, finish, if_pos hu.room]
  rfl

/-- Every record is passed with its end of line. -/
lemma logAll_eq {caches : ℕ → TimeCache} {us : List (ℕ × Use)}
    (hcaches : ∀ tid, (caches tid).Valid localtime) (hus : ∀ p ∈ us, p.2.Readable localtime) :
    logAll localtime caches us = .ok (us.map fun p => p.2.output localtime) := by
  induction us generalizing caches with
  | nil => rfl
  | cons p us ih =>
    obtain ⟨tid, u⟩ := p
    have hu : u.Readable localtime := hus (tid, u) (by simp)
    have hvalid : ∀ tid', (Function.update caches tid
        ((caches tid).formatTime u.time localtime) tid').Valid localtime := by
      intro tid'
      rw [Function.update_apply]
      split
      · rw [(hcaches tid).formatTime hu.time]
        exact fun _ => rfl
      · exact hcaches tid'
    rw [logAll, log_eq (hcaches tid) hu, ok_bind,
      ih hvalid fun p hp => hus p (List.mem_cons_of_mem _ hp)]
    rfl

/-! ### Reading -/

lemma space_notMem_ofInt (value : ℤ) : space ∉ Decimal.ofInt value := by
  intro h
  have hdigit : space ∉ Decimal.ofNat value.natAbs := fun hmem =>
    absurd (Decimal.mem_ofNat hmem).1 (by decide)
  rw [Decimal.ofInt] at h
  split at h
  · rcases List.mem_cons.mp h with hminus | hmem
    · exact absurd hminus (by decide)
    · exact hdigit hmem
  · exact hdigit h

lemma reads_record (hu : u.Readable localtime) :
    readRecord.Reads (u.output localtime) (u.record localtime) := by
  have htime := Reader.reads_exactly (localtime u.time).text
  rw [hu.date] at htime
  have hlevel : (Reader.oneOf LogLevelName [.INFO, .WARN, .ERROR]).Reads
      (LogLevelName u.level) u.level := by
    apply Reader.reads_oneOf <;> cases u.level <;> decide
  have hline := Reader.reads_upTo (space_notMem_ofInt u.line.toInt)
  have htext : u.output localtime =
      (localtime u.time).text ++ (LogLevelName u.level ++ (u.file ++ [colon] ++
        (Decimal.ofInt u.line.toInt ++ [space] ++ (u.text localtime ++ [newline] ++ [])))) := by
    simp only [Use.output, Use.headerText, List.append_assoc, List.append_nil]
  rw [htext, readRecord, Use.record]
  refine htime.bind (hlevel.bind ((Reader.reads_upTo hu.file).bind (hline.bind
    ((Reader.reads_upTo hu.line).bind ?_))))
  rw [Decimal.readInt_ofInt]
  exact Reader.reads_pure _

lemma reads_records {us : List (ℕ × Use)} (hus : ∀ p ∈ us, p.2.Readable localtime) :
    List.Forall₂ readRecord.Reads (us.map fun p => p.2.output localtime)
      (us.map fun p => p.2.record localtime) := by
  induction us with
  | nil => exact .nil
  | cons p us ih =>
    refine .cons (reads_record (hus p (by simp))) ?_
    exact ih fun p' hp' => hus p' (List.mem_cons_of_mem _ hp')

lemma ne_nil_of_mem_outputs {us : List (ℕ × Use)} :
    ∀ t ∈ us.map fun p => p.2.output localtime, t ≠ [] := by
  intro t ht
  obtain ⟨p, -, rfl⟩ := List.mem_map.mp ht
  exact List.append_ne_nil_of_right_ne_nil _ (by simp)

lemma readLog_map {us : List (ℕ × Use)} (hus : ∀ p ∈ us, p.2.Readable localtime) :
    readLog (us.map fun p => p.2.output localtime).flatten =
      some (us.map fun p => p.2.record localtime) :=
  Reader.all_flatten (reads_records hus) ne_nil_of_mem_outputs

/-- Whatever threads log, as long as every use keeps to what a reader needs: nothing is undefined,
and the output is read back as the seconds, levels, files, lines and texts of the records, in
order and each once. Where a message has room it is read as a whole. -/
theorem records_read_back {us : List (ℕ × Use)} (hus : ∀ p ∈ us, p.2.Readable localtime) :
    (∃ records, logAll localtime (fun _ => .zero) us = .ok records ∧
      readLog records.flatten = some (us.map fun p => p.2.record localtime)) ∧
    ∀ p ∈ us, (p.2.headerText localtime ++
        p.2.items.flatMap (·.item.characters)).length + 32 ≤ kSmallBuffer →
      (p.2.record localtime).text = p.2.items.flatMap (·.item.characters) := by
  constructor
  · exact ⟨_, logAll_eq (fun _ => valid_zero) hus, readLog_map hus⟩
  · intro p _ hroom
    rw [List.length_append] at hroom
    exact textBehind_of_le hroom

/-! ### Two records of one second -/

/-- Nothing stands between `WARN` and the name of the file. -/
def twoUses : List (ℕ × Use) :=
  [(1, ⟨1704067200, .INFO, literal "a.cc", 1, [.cstr (some (literal "hello"))]⟩),
    (2, ⟨1704067200, .WARN, literal "b.cc", 12, [.cstr none, .int (-3)]⟩)]

lemma readable_twoUses : ∀ p ∈ twoUses, p.2.Readable fun _ => midnight := by
  intro p hp
  rw [twoUses, List.mem_cons, List.mem_singleton] at hp
  obtain rfl | rfl := hp
  · refine ⟨by decide, by decide, by decide, ?_, by decide, by decide, by decide⟩
    intro i hi bytes hitem
    rw [List.mem_singleton] at hi
    subst hi
    cases hitem
    decide
  · refine ⟨by decide, by decide, by decide, ?_, by decide, by decide, by decide⟩
    intro i hi bytes hitem
    rw [List.mem_cons, List.mem_singleton] at hi
    obtain rfl | rfl := hi <;> cases hitem
    decide

theorem records_read_back_two : ∃ records,
    logAll (fun _ => midnight) (fun _ => .zero) twoUses = .ok records ∧
      readLog records.flatten =
        some [⟨literal "2024-01-01 00:00:00", .INFO, literal "a.cc", 1, literal "hello"⟩,
          ⟨literal "2024-01-01 00:00:00", .WARN, literal "b.cc", 12, literal "(null)-3"⟩] := by
  obtain ⟨records, hlog, hread⟩ := (records_read_back readable_twoUses).1
  refine ⟨records, hlog, hread.trans ?_⟩
  decide

end ClwServer.Logger
