import ClwServer.Base.LogFile.Basic

/-!
# What a call of `LogFile` can do
-/

namespace ClwServer.LogFile

open Cpp Posix

/-! ### What a file shows -/

/-- `File::append` shows what goes into the file and out of it. -/
lemma shown_of_append {file : File} {disk : Disk} {content : List Byte} {writes : List Fwrite}
    {a : Appending} {rest : List Fwrite}
    (h : file.append disk content writes = .ok (.left a rest)) :
    ∀ o ∈ a.shown, (∃ bytes, o = .wrote file.id bytes) ∨ ∃ bytes, o = .output file.id bytes := by
  have hinv := InputLoop.run_invariant (P := fun s : Appending => s.file.id = file.id ∧
    ∀ o ∈ s.shown, (∃ bytes, o = .wrote file.id bytes) ∨ ∃ bytes, o = .output file.id bytes) h
    ⟨rfl, by simp⟩ ?_
  · exact hinv.2
  · rintro s r u ⟨hid, hshown⟩ hturn
    cases hfp : s.file.fp with
    | none =>
      simp only [fileLoop, turn, unlockWrite, hfp] at hturn
      cases hturn
    | some fp =>
      simp only [fileLoop, turn, unlockWrite, hfp, deref_some, ok_bind, Except.ok.injEq] at hturn
      subst hturn
      split
      all_goals
        refine ⟨hid, fun o ho => ?_⟩
        simp only [Turn.state, List.mem_append, List.mem_cons, List.not_mem_nil, or_false] at ho
        rcases ho with ho | rfl | rfl
        · exact hshown o ho
        · exact .inl ⟨_, by rw [hid]⟩
        · exact .inr ⟨_, by rw [hid]⟩

lemma shown_of_flush {file : File} {disk : Disk} {o : Obs} (h : o ∈ (file.flush disk).2.2) :
    ∃ bytes, o = .output file.id bytes := by
  cases hfp : file.fp with
  | none => simp [File.flush, hfp] at h
  | some fp =>
    simp only [File.flush, hfp, List.mem_singleton] at h
    exact ⟨fp.buffer, h⟩

/-! ### The steps -/

variable {basename : String} {flushInterval : ℤ}

/-- The file that `rollFile` opens at `reading`. -/
def newFile (w : World) (basename : String) (reading : Time) (ok : Bool) : File :=
  ⟨w.made, fopen (logName basename reading) ok⟩

/-- The steps, with what they show. -/
inductive Move (basename : String) (flushInterval : ℤ) (s : State) :
    Event → State → List Obs → Prop
  | construct (reading : Time) (ok : Bool) (hout : s.output = none) :
      Move basename flushInterval s (.construct reading ok)
        ⟨⟨s.world.disk, s.world.made + 1⟩, some ⟨basename, flushInterval, dayStart reading, 0,
          some (newFile s.world basename reading ok)⟩⟩
        [.opened s.world.made reading (logName basename reading)]
  | append (content : List Byte) (ans : Answers) (l : Members) (file : File) (a : Appending)
      (hout : s.output = some l) (hfile : l.file_ = some file)
      (happ : file.append s.world.disk content ans.writes = .ok (.left a []))
      (hday : dayStart ans.now = l.startTime_)
      (hflush : (ans.now : ℤ) - l.lastFlush_ ≤ l.flushInterval_) :
      Move basename flushInterval s (.append content ans)
        ⟨{ s.world with disk := a.disk }, some { l with file_ := some a.file }⟩
        (.append content ans.now :: a.shown)
  | appendFlush (content : List Byte) (ans : Answers) (l : Members) (file : File) (a : Appending)
      (hout : s.output = some l) (hfile : l.file_ = some file)
      (happ : file.append s.world.disk content ans.writes = .ok (.left a []))
      (hday : dayStart ans.now = l.startTime_)
      (hflush : l.flushInterval_ < (ans.now : ℤ) - l.lastFlush_) :
      Move basename flushInterval s (.append content ans)
        ⟨{ s.world with disk := (a.file.flush a.disk).1 },
          some { l with lastFlush_ := ans.now, file_ := some (a.file.flush a.disk).2.1 }⟩
        (.append content ans.now :: (a.shown ++ (a.file.flush a.disk).2.2))
  | appendRoll (content : List Byte) (ans : Answers) (l : Members) (file : File) (a : Appending)
      (fp : Stream) (hout : s.output = some l) (hfile : l.file_ = some file)
      (happ : file.append s.world.disk content ans.writes = .ok (.left a []))
      (hday : dayStart ans.now ≠ l.startTime_) (hfp : a.file.fp = some fp) :
      Move basename flushInterval s (.append content ans)
        ⟨⟨a.disk.append fp.name fp.buffer, s.world.made + 1⟩,
          some { l with startTime_ := dayStart ans.reading
                        file_ := some (newFile s.world l.basename_ ans.reading ans.ok) }⟩
        (.append content ans.now :: (a.shown ++
          [.opened s.world.made ans.reading (logName l.basename_ ans.reading),
            .output a.file.id fp.buffer, .closed a.file.id]))
  | flush (l : Members) (file : File) (hout : s.output = some l) (hfile : l.file_ = some file) :
      Move basename flushInterval s .flush
        ⟨{ s.world with disk := (file.flush s.world.disk).1 },
          some { l with file_ := some (file.flush s.world.disk).2.1 }⟩
        (.flush :: (file.flush s.world.disk).2.2)
  | destroy (l : Members) (file : File) (fp : Stream) (hout : s.output = some l)
      (hfile : l.file_ = some file) (hfp : file.fp = some fp) :
      Move basename flushInterval s .destroy
        ⟨{ s.world with disk := s.world.disk.append fp.name fp.buffer }, none⟩
        [.output file.id fp.buffer, .closed file.id]
  | destroyNull (l : Members) (hout : s.output = some l) (hfile : l.file_ = none) :
      Move basename flushInterval s .destroy ⟨s.world, none⟩ []

/-- A file whose destructor is defined has a stream. -/
lemma close_eq_ok {file : File} {disk : Disk} {r : Disk × List Obs}
    (h : file.close disk = .ok r) : ∃ fp, file.fp = some fp ∧
      r = (disk.append fp.name fp.buffer, [.output file.id fp.buffer, .closed file.id]) := by
  cases hfp : file.fp with
  | none =>
    rw [File.close, hfp] at h
    cases h
  | some fp =>
    rw [File.close, hfp] at h
    cases h
    exact ⟨fp, rfl, rfl⟩

lemma Move.of_append {s t : State} {content : List Byte} {ans : Answers} {o : List Obs}
    (h : exec basename flushInterval s (.append content ans) = some (.ok (t, o))) :
    Move basename flushInterval s (.append content ans) t o := by
  obtain ⟨l, hout, h⟩ := Option.bind_eq_some_iff.mp h
  cases hfile : l.file_ with
  | none =>
    rw [hfile] at h
    cases h
  | some file =>
    rw [hfile, deref_some] at h
    simp only at h
    split at h
    · cases h
    · rename_i a happ
      have h := Option.some.inj h
      by_cases hday : dayStart ans.now = l.startTime_
      · rw [afterAppend, if_neg (by simpa using hday)] at h
        by_cases hflush : l.flushInterval_ < (ans.now : ℤ) - l.lastFlush_
        · rw [if_pos hflush] at h
          cases h
          exact .appendFlush content ans l file a hout hfile happ hday hflush
        · rw [if_neg hflush] at h
          cases h
          exact .append content ans l file a hout hfile happ hday (Int.not_lt.mp hflush)
      · rw [afterAppend, if_pos (by simpa using hday)] at h
        cases hclose : a.file.close a.disk with
        | error e =>
          simp only [rollFile, closeFile, hclose] at h
          cases h
        | ok r =>
          obtain ⟨fp, hfp, rfl⟩ := close_eq_ok hclose
          simp only [rollFile, closeFile, hclose] at h
          cases h
          exact .appendRoll content ans l file a fp hout hfile happ hday hfp
    · cases h

lemma Move.of_step {s t : State} {e : Event} {o : List Obs}
    (h : (system basename flushInterval).step s e = some (t, o)) :
    Move basename flushInterval s e t o := by
  obtain ⟨r, hexec, hr⟩ := Option.bind_eq_some_iff.mp h
  obtain rfl : r = .ok (t, o) := by
    cases r with
    | error e => cases hr
    | ok r => exact congrArg _ (Option.some.inj hr)
  cases e with
  | construct reading ok =>
    simp only [exec] at hexec
    split at hexec
    · rename_i hout
      cases hexec
      exact .construct reading ok hout
    · cases hexec
  | append content ans => exact .of_append hexec
  | flush =>
    obtain ⟨l, hout, h⟩ := Option.map_eq_some_iff.mp hexec
    cases hfile : l.file_ with
    | none =>
      rw [LogFile.flush, hfile] at h
      cases h
    | some file =>
      rw [LogFile.flush, hfile] at h
      cases h
      exact .flush l file hout hfile
  | destroy =>
    obtain ⟨l, hout, h⟩ := Option.map_eq_some_iff.mp hexec
    cases hfile : l.file_ with
    | none =>
      rw [hfile] at h
      cases h
      exact .destroyNull l hout hfile
    | some file =>
      cases hclose : file.close s.world.disk with
      | error e =>
        simp only [hfile, closeFile, hclose] at h
        cases h
      | ok r =>
        obtain ⟨fp, hfp, rfl⟩ := close_eq_ok hclose
        simp only [hfile, closeFile, hclose] at h
        cases h
        exact .destroy l file fp hout hfile hfp

end ClwServer.LogFile
