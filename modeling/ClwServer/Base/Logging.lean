import ClwServer.Base.LogStream.Content

/-!
# `Logger`

One log record: the constructor of `Logger` fills its stream with a header, user code inserts what
it likes, and the destructor inserts the end of the line and passes the buffer to `output`. The
end of the line is a text like any other, and is left out where one byte is free.
-/

namespace ClwServer.Logger

open Cpp LogStream

/-- The levels in front of `NUM_LOG`, which is their number. -/
inductive LogLevel
  | INFO
  | WARN
  | ERROR
  deriving DecidableEq

/-- `LogLevelName[level_]` -/
def LogLevelName : LogLevel → List Byte
  | .INFO => literal "INFO "
  | .WARN => literal "WARN"
  | .ERROR => literal "ERROR"

/-- What `strftime` leaves in `t_time`, with room for 26 characters. -/
structure TimeText where
  text : List Byte
  fits : text.length ≤ 25
  deriving DecidableEq

/-- The variables `t_lastSecond` and `t_time` of a thread. -/
structure TimeCache where
  t_lastSecond : ℤ
  t_time : TimeText

/-- The variables of a thread before its first record. -/
def TimeCache.zero : TimeCache := ⟨0, ⟨[], Nat.zero_le _⟩⟩

/-- `formatTime` at the second `time`, up to the insertion. -/
def TimeCache.formatTime (c : TimeCache) (time : ℤ) (localtime : ℤ → TimeText) : TimeCache :=
  if c.t_lastSecond ≠ time then ⟨time, localtime time⟩ else c

abbrev Buffer := FixedBuffer kSmallBuffer

/-- What the constructor of `Impl` inserts. -/
def header (t_time : TimeText) (level : LogLevel) (file : List Byte) (line : Int32) :
    List Insertion :=
  [.cstr (some t_time.text), .cstr (some (LogLevelName level)), .string file,
    .cstr (some (literal ":")), .int line, .cstr (some (literal " "))]

/-- The constructor of `Impl`. -/
def impl (t_time : TimeText) (level : LogLevel) (file : List Byte) (line : Int32) :
    Except Fault Buffer :=
  insertAll .empty (header t_time level file line)

/-- The destructor: what `output` gets. -/
def destroy (b : Buffer) : Except Fault (List Byte) := do
  let b ← insert b (.cstr (some (literal "\n")))
  .ok b.data

/-- `Logger(level, file, line).stream() << ...;` at the second `time`. -/
def log (c : TimeCache) (time : ℤ) (localtime : ℤ → TimeText) (level : LogLevel)
    (file : List Byte) (line : Int32) (items : List Insertion) : Except Fault (List Byte) := do
  let b ← impl (c.formatTime time localtime).t_time level file line
  let b ← insertAll b items
  destroy b

/-- The record is not empty, and its last byte ends the line. -/
def EndsLine (record : List Byte) : Prop := record.getLast? = some 10

/-- What the stream has stored of the header and the items when the destructor begins. -/
def stored (t_time : TimeText) (level : LogLevel) (file : List Byte) (line : Int32)
    (items : List Insertion) : List Byte :=
  takeAll kSmallBuffer [] (header t_time level file line ++ items)

/-- What the destructor makes of it. -/
def finish (data : List Byte) : List Byte :=
  if data.length + 1 < kSmallBuffer then data ++ [10] else data

lemma endsLine_finish (data : List Byte) : EndsLine (finish data) ↔
    data.length + 1 < kSmallBuffer ∨ data.getLast? = some 10 := by
  by_cases hroom : data.length + 1 < kSmallBuffer
  · simp [EndsLine, finish, hroom]
  · rw [EndsLine, finish, if_neg hroom]
    exact ⟨.inr, fun h => h.resolve_left hroom⟩

lemma short_header (t_time : TimeText) (level : LogLevel) {file : List Byte} (line : Int32)
    (hfile : file.length < 2 ^ 31) : ∀ i ∈ header t_time level file line, i.Short := by
  have htime := t_time.fits
  have hlevel : (LogLevelName level).length ≤ 5 := by cases level <;> decide
  have hcolon : (literal ":").length = 1 := by decide
  have hspace : (literal " ").length = 1 := by decide
  intro i hi bytes hitem
  simp only [header, List.mem_cons, List.not_mem_nil, or_false] at hi
  rcases hi with rfl | rfl | rfl | rfl | rfl | rfl <;> cases hitem <;> omega

/-- The end of the line is taken where two bytes are free. -/
lemma destroy_spec (b : Buffer) : ∃ record, destroy b = .ok record ∧
    record = finish b.data := by
  have hshort : (Insertion.cstr (some (literal "\n"))).Short := by
    rintro bytes ⟨⟩
    decide
  obtain ⟨b', hb', hdata⟩ := insert_spec (b := b) hshort
  refine ⟨b'.data, by rw [destroy, hb', ok_bind], ?_⟩
  rw [hdata, take]
  have hfits : (Insertion.cstr (some (literal "\n"))).item.Fits kSmallBuffer b.data.length ↔
      b.data.length + 1 < kSmallBuffer := by
    have hlen : (literal "\n").length = 1 := by decide
    simp only [Insertion.item, Item.Fits, hlen, kSmallBuffer]
    omega
  exact if_congr hfits rfl rfl

lemma log_spec (c : TimeCache) (time : ℤ) (localtime : ℤ → TimeText) (level : LogLevel)
    {file : List Byte} (line : Int32) {items : List Insertion} (hfile : file.length < 2 ^ 31)
    (hitems : ∀ i ∈ items, i.Short) :
    ∃ record, log c time localtime level file line items = .ok record ∧
      record = finish (stored (c.formatTime time localtime).t_time level file line items) := by
  obtain ⟨b₁, hb₁, hdata₁⟩ := insertAll_spec (b := (.empty : Buffer))
    (short_header (c.formatTime time localtime).t_time level line hfile)
  obtain ⟨b₂, hb₂, hdata₂⟩ := insertAll_spec (b := b₁) hitems
  obtain ⟨record, hrecord, hdata⟩ := destroy_spec b₂
  refine ⟨record, ?_, ?_⟩
  · rw [log, impl, hb₁, ok_bind, hb₂, ok_bind, hrecord]
  · rw [hdata, stored, takeAll, List.foldl_append, hdata₂, hdata₁]
    rfl

/-- A record ends its line if and only if two bytes are free when the destructor begins, or the
last byte that was stored before is the end of a line itself. -/
theorem endsLine_iff (c : TimeCache) (time : ℤ) (localtime : ℤ → TimeText) (level : LogLevel)
    {file : List Byte} (line : Int32) {items : List Insertion} (hfile : file.length < 2 ^ 31)
    (hitems : ∀ i ∈ items, i.Short) :
    ∃ record, log c time localtime level file line items = .ok record ∧
      (EndsLine record ↔
        (stored (c.formatTime time localtime).t_time level file line items).length + 1 <
            kSmallBuffer ∨
          (stored (c.formatTime time localtime).t_time level file line items).getLast? =
            some 10) := by
  obtain ⟨record, hrecord, rfl⟩ := log_spec c time localtime level line hfile hitems
  exact ⟨_, hrecord, endsLine_finish _⟩

/-! ### A record of the first line of a file -/

def midnight : TimeText := ⟨literal "2024-01-01 00:00:00", by decide⟩

/-- The record `LOG_INFO << ...` of the line 1 of `a.cc`, the first of its thread. -/
def logFirst (items : List Insertion) : Except Fault (List Byte) :=
  log .zero 1704067200 (fun _ => midnight) .INFO (literal "a.cc") 1 items

lemma formatTime_first :
    (TimeCache.zero.formatTime 1704067200 fun _ => midnight).t_time = midnight := rfl

lemma stored_first (items : List Insertion) : stored midnight .INFO (literal "a.cc") 1 items =
    takeAll kSmallBuffer (literal "2024-01-01 00:00:00INFO a.cc:1 ") items := by
  have hline : (1 : Int32).toInt = 1 := by decide
  have htext : convert 1 = .ok (literal "1") := by
    rw [convert, convertLoop]
    rfl
  have hheader : takeAll kSmallBuffer [] (header midnight .INFO (literal "a.cc") 1) =
      literal "2024-01-01 00:00:00INFO a.cc:1 " := by
    simp only [takeAll, header, List.foldl_cons, List.foldl_nil, take, Insertion.item,
      Item.rendering, hline, htext]
    decide
  rw [stored, takeAll, List.foldl_append]
  show takeAll _ (takeAll _ _ (header _ _ _ _)) items = _
  rw [hheader]

theorem endsLine_hello : ∃ record, logFirst [.cstr (some (literal "hello"))] = .ok record ∧
    EndsLine record := by
  have hshort : ∀ i ∈ [Insertion.cstr (some (literal "hello"))], i.Short := by
    intro i hi bytes hitem
    rw [List.mem_singleton] at hi
    subst hi
    cases hitem
    decide
  have hfile : (literal "a.cc").length < 2 ^ 31 := by decide
  obtain ⟨record, hrecord, hiff⟩ := endsLine_iff .zero 1704067200 (fun _ => midnight) .INFO 1
    hfile hshort
  refine ⟨record, hrecord, hiff.mpr (.inl ?_)⟩
  rw [formatTime_first, stored_first]
  decide

/-- A text of 3968 bytes leaves one byte free, and the line is not ended. -/
theorem newline_left_out : ∃ record,
    logFirst [.string (List.replicate 3968 120)] = .ok record ∧ record.length = 3999 ∧
      ¬EndsLine record := by
  have hshort : ∀ i ∈ [Insertion.string (List.replicate 3968 120)], i.Short := by
    intro i hi bytes hitem
    rw [List.mem_singleton] at hi
    subst hi
    cases hitem
    rw [List.length_replicate]
    decide
  have hfile : (literal "a.cc").length < 2 ^ 31 := by decide
  obtain ⟨record, hrecord, hfinish⟩ := log_spec .zero 1704067200 (fun _ => midnight) .INFO 1
    hfile hshort
  refine ⟨record, hrecord, ?_⟩
  have hheader : (literal "2024-01-01 00:00:00INFO a.cc:1 ").length = 31 := by decide
  have hstored : stored midnight .INFO (literal "a.cc") 1 [.string (List.replicate 3968 120)] =
      literal "2024-01-01 00:00:00INFO a.cc:1 " ++ List.replicate 3968 120 := by
    have hfits : (Insertion.string (List.replicate 3968 120)).item.Fits kSmallBuffer
        (literal "2024-01-01 00:00:00INFO a.cc:1 ").length := by
      rw [hheader]
      simp only [Insertion.item, Item.Fits, List.length_replicate]
      decide
    rw [stored_first, takeAll, List.foldl_cons, List.foldl_nil, take, if_pos hfits]
    rfl
  have hlen : (stored midnight .INFO (literal "a.cc") 1
      [.string (List.replicate 3968 120)]).length = 3999 := by
    rw [hstored, List.length_append, List.length_replicate, hheader]
  have hfull : ¬(3999 + 1 < kSmallBuffer) := by decide
  rw [formatTime_first] at hfinish
  rw [hfinish, endsLine_finish, finish, hlen, if_neg hfull, hlen, hstored]
  refine ⟨rfl, ?_⟩
  rw [List.getLast?_append, List.getLast?_replicate]
  decide

end ClwServer.Logger
