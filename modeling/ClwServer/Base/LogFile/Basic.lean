import ClwServer.Core.Calendar
import ClwServer.Core.Cpp
import ClwServer.Core.InputLoop
import ClwServer.Core.System
import Mathlib.Logic.Function.Basic

/-!
# `LogFile`

`File` and `LogFile` of `LogFile.h` and `LogFile.cc`, with the disk they write to. What `fwrite`
accepts stands in the buffer of the stream until stdio appends it to the file; how much it appends
on its own is left open. The answers of the C library (results of `fwrite` and `fopen`, readings of
the clock) come with the event of the call.
-/

namespace ClwServer.LogFile

open Cpp Posix

/-- The contents of the files. -/
abbrev Disk := String → List Byte

def Disk.append (disk : Disk) (name : String) (bytes : List Byte) : Disk :=
  Function.update disk name (disk name ++ bytes)

lemma Disk.append_apply (disk : Disk) (name other : String) (bytes : List Byte) :
    disk.append name bytes other = disk other ++ if name = other then bytes else [] := by
  by_cases hname : name = other
  · subst hname
    simp [append]
  · simp [append, Function.update_of_ne (Ne.symm hname), hname]

/-- What can be seen of a run. The `File` objects are numbered in the order of their
constructors. -/
inductive Obs
  /-- `LogFile::append` is called, and reads the clock behind `File::append`. -/
  | append (content : List Byte) (now : Time)
  /-- `LogFile::flush` is called. -/
  | flush
  /-- The constructor of the file `id` runs, for a name made from the reading `at`. -/
  | opened (id : ℕ) (reading : Time) (name : String)
  /-- `fwrite` accepts `bytes` for the file `id`. -/
  | wrote (id : ℕ) (bytes : List Byte)
  /-- `bytes` go from the buffer of the file `id` to the disk. -/
  | output (id : ℕ) (bytes : List Byte)
  /-- The destructor of the file `id` has run. -/
  | closed (id : ℕ)
  deriving DecidableEq

/-! ### `File` -/

/-- A stream that `fopen` has opened to append. -/
structure Stream where
  name : String
  buffer : List Byte
  deriving DecidableEq

structure File where
  id : ℕ
  fp : Option Stream
  deriving DecidableEq

/-- What `fwrite` answers: how much it accepts, and how much of the buffer stdio then appends to
the file. -/
structure Fwrite where
  accepts : ℕ
  appends : ℕ
  deriving DecidableEq

/-- The state of `File::append`: `n` bytes are accepted. -/
structure Appending where
  disk : Disk
  file : File
  n : ℕ
  /-- The loop has begun. -/
  retry : Bool
  shown : List Obs

/-- `unlockWrite(content + n, remain)` -/
def unlockWrite (content : List Byte) (s : Appending) (r : Fwrite) : Except Fault Appending := do
  let fp ← deref s.file.fp
  let bytes := (content.drop s.n).take r.accepts
  let fp := { fp with buffer := fp.buffer ++ bytes }
  .ok { disk := s.disk.append fp.name (fp.buffer.take r.appends)
        file := { s.file with fp := some { fp with buffer := fp.buffer.drop r.appends } }
        n := s.n + bytes.length
        retry := true
        shown := s.shown ++ [.wrote s.file.id bytes, .output s.file.id (fp.buffer.take r.appends)] }

/-- One call of `unlockWrite` in `File::append` and what it leads to. A result of 0 ends the loop,
where the call is one of the loop. -/
def turn (content : List Byte) (s : Appending) (r : Fwrite) : Except Fault (Turn Appending) := do
  let t ← unlockWrite content s r
  .ok (if content.length - t.n = 0 ∨ s.retry = true ∧ t.n = s.n then .leave t else .again t)

def fileLoop (content : List Byte) : InputLoop Appending Fwrite Fault where
  head _ := .ok ()
  body := turn content

/-- `File::append` -/
def File.append (file : File) (disk : Disk) (content : List Byte) (writes : List Fwrite) :
    Except Fault (Progress Appending Fwrite) :=
  (fileLoop content).run ⟨disk, file, 0, false, []⟩ writes

/-- `File::flush`; without a stream `fflush` is about other streams. -/
def File.flush (file : File) (disk : Disk) : Disk × File × List Obs :=
  match file.fp with
  | some fp =>
    (disk.append fp.name fp.buffer, { file with fp := some { fp with buffer := [] } },
      [.output file.id fp.buffer])
  | none => (disk, file, [])

/-- `~File` -/
def File.close (file : File) (disk : Disk) : Except Fault (Disk × List Obs) := do
  let fp ← deref file.fp
  .ok (disk.append fp.name fp.buffer, [.output file.id fp.buffer, .closed file.id])

/-! ### `LogFile` -/

/-- `t / kRollPerSeconds * kRollPerSeconds`. The macro is `60 * 60 * 24`, without parentheses. -/
def dayStart (t : ℕ) : ℕ := t / 60 * 60 * 24 * 60 * 60 * 24

/-- The name that `setLogName` makes at the reading `t`. -/
def logName (basename : String) (t : Time) : String :=
  basename ++ strftime (gmtime t) ++ ".log"

/-- The members of `LogFile`. -/
structure Members where
  basename_ : String
  flushInterval_ : ℤ
  startTime_ : Time
  lastFlush_ : Time
  file_ : Option File
  deriving DecidableEq

/-- What a `LogFile` works on: the disk, and the number of `File` objects made so far. -/
structure World where
  disk : Disk
  made : ℕ

/-- The result of `fopen`. -/
def fopen (name : String) (ok : Bool) : Option Stream := if ok then some ⟨name, []⟩ else none

/-- The deletion of what `file_` points to. -/
def closeFile (file_ : Option File) (disk : Disk) : Except Fault (Disk × List Obs) :=
  match file_ with
  | some file => file.close disk
  | none => .ok (disk, [])

/-- `rollFile`: the clock of `setLogName` shows `reading`, and `ok` says whether `fopen` succeeds.
The new file is opened before the old one is closed. -/
def rollFile (w : World) (l : Members) (reading : Time) (ok : Bool) :
    Except Fault (World × Members × List Obs) := do
  let name := logName l.basename_ reading
  let file : File := ⟨w.made, fopen name ok⟩
  let (disk, o) ← closeFile l.file_ w.disk
  .ok (⟨disk, w.made + 1⟩, { l with startTime_ := dayStart reading, file_ := some file },
    .opened w.made reading name :: o)

/-- The constructor. -/
def construct (w : World) (basename : String) (flushInterval : ℤ) (reading : Time) (ok : Bool) :
    Except Fault (World × Members × List Obs) :=
  rollFile w ⟨basename, flushInterval, 0, 0, none⟩ reading ok

/-- The answers to a call of `append_unlocked`. -/
structure Answers where
  writes : List Fwrite
  now : Time
  /-- The clock and `fopen` in `rollFile`. -/
  reading : Time
  ok : Bool
  deriving DecidableEq

/-- `append_unlocked` behind `file_->append(content, length)`. -/
def afterAppend (w : World) (l : Members) (a : Appending) (ans : Answers) :
    Except Fault (World × Members × List Obs) :=
  let w := { w with disk := a.disk }
  let l := { l with file_ := some a.file }
  if dayStart ans.now ≠ l.startTime_ then do
    let (w, l, o) ← rollFile w l ans.reading ans.ok
    .ok (w, l, a.shown ++ o)
  else if l.flushInterval_ < (ans.now : ℤ) - l.lastFlush_ then
    let (disk, file, o) := a.file.flush w.disk
    .ok ({ w with disk := disk }, { l with lastFlush_ := ans.now, file_ := some file },
      a.shown ++ o)
  else
    .ok (w, l, a.shown)

/-- `flush` -/
def flush (w : World) (l : Members) : Except Fault (World × Members × List Obs) := do
  let file ← deref l.file_
  let (disk, file, o) := file.flush w.disk
  .ok ({ w with disk := disk }, { l with file_ := some file }, o)

/-! ### The system -/

/-- The disk and the one `LogFile`, while it exists. -/
structure State where
  world : World
  output : Option Members

/-- The current file. -/
def State.file (s : State) : Option File := s.output.bind Members.file_

lemma file_of_output {s : State} {l : Members} (hout : s.output = some l) : s.file = l.file_ := by
  rw [State.file, hout]
  rfl

inductive Event
  | construct (reading : Time) (ok : Bool)
  | append (content : List Byte) (ans : Answers)
  | flush
  | destroy
  deriving DecidableEq

def init : State := ⟨⟨fun _ => [], 0⟩, none⟩

/-- The state behind a call. -/
def done (o : List Obs) (r : World × Members × List Obs) : State × List Obs :=
  (⟨r.1, some r.2.1⟩, o ++ r.2.2)

/-- What an event does. An `append` comes with exactly the results that `fwrite` is asked for. -/
def exec (basename : String) (flushInterval : ℤ) (s : State) :
    Event → Option (Except Fault (State × List Obs))
  | .construct reading ok =>
    match s.output with
    | none => some ((LogFile.construct s.world basename flushInterval reading ok).map (done []))
    | some _ => none
  | .append content ans =>
    s.output.bind fun l =>
      match deref l.file_ with
      | .error e => some (.error e)
      | .ok file =>
        match file.append s.world.disk content ans.writes with
        | .error e => some (.error e)
        | .ok (.left a []) =>
          some ((afterAppend s.world l a ans).map (done [.append content ans.now]))
        | .ok _ => none
  | .flush => s.output.map fun l => (LogFile.flush s.world l).map (done [.flush])
  | .destroy =>
    s.output.map fun l => do
      let (disk, o) ← closeFile l.file_ s.world.disk
      .ok (⟨{ s.world with disk := disk }, none⟩, o)

/-- A `LogFile`, its clock and its disk. -/
def system (basename : String) (flushInterval : ℤ) : System State Event Obs where
  init := init
  step s e := (exec basename flushInterval s e).bind Except.toOption

end ClwServer.LogFile
