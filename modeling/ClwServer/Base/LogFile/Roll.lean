import ClwServer.Base.LogFile.Step

/-!
# When a file is rolled

The key that `append_unlocked` compares with `startTime_` is not the beginning of a day: the
division of the macro takes its first factor only, and the key changes with every minute.
-/

namespace ClwServer.LogFile

open Cpp Posix

/-- The reading at which the last file was opened. -/
def openedAt (obs : List Obs) : Option Time :=
  obs.foldl (fun last o => match o with
    | .opened _ reading _ => some reading
    | _ => last) none

/-- A file is opened. -/
def Opens (o : List Obs) : Prop := ∃ id reading name, .opened id reading name ∈ o

/-- The UTC day of a reading. -/
def utcDay (t : ℕ) : ℕ := t / 86400

/-- The minute of a reading. -/
def minute (t : ℕ) : ℕ := t / 60

/-- Two readings have one key if and only if they are in the same minute. -/
lemma dayStart_eq_iff {s t : ℕ} : dayStart s = dayStart t ↔ minute s = minute t := by
  simp only [dayStart, minute]
  omega

lemma utcDay_eq_of_minute {s t : ℕ} (h : minute s = minute t) : utcDay s = utcDay t := by
  simp only [minute, utcDay] at *
  omega

/-! ### Files that are opened -/

variable {basename : String} {flushInterval : ℤ} {s t : State} {obs o : List Obs}

lemma openedAt_append (obs o : List Obs) : openedAt (obs ++ o) =
    o.foldl (fun last o => match o with
      | .opened _ reading _ => some reading
      | _ => last) (openedAt obs) := by
  rw [openedAt, List.foldl_append]
  rfl

/-- Without an opening the last reading is the one from before. -/
lemma openedAt_append_of_not_opens (h : ¬Opens o) : openedAt (obs ++ o) = openedAt obs := by
  rw [openedAt_append]
  generalize openedAt obs = last
  induction o with
  | nil => rfl
  | cons x o ih =>
    have ho : ¬Opens o := fun ⟨id, reading, name, hmem⟩ =>
      h ⟨id, reading, name, List.mem_cons_of_mem x hmem⟩
    cases x with
    | opened id reading name => exact absurd ⟨id, reading, name, List.mem_cons_self ..⟩ h
    | _ => exact ih ho

/-- `startTime_` is the key of the reading at which the current file was opened. -/
def Started (obs : List Obs) (s : State) : Prop :=
  ∀ l, s.output = some l → ∃ t, openedAt obs = some t ∧ l.startTime_ = dayStart t

lemma not_opens_append {content : List Byte} {now : Time} {file : File} {disk : Disk}
    {writes : List Fwrite} {a : Appending} {o : List Obs}
    (happ : file.append disk content writes = .ok (.left a [])) (ho : ¬Opens o) :
    ¬Opens (.append content now :: (a.shown ++ o)) := by
  rintro ⟨id, reading, name, hmem⟩
  rcases List.mem_cons.mp hmem with heq | hmem
  · cases heq
  · rcases List.mem_append.mp hmem with hmem | hmem
    · rcases shown_of_append happ _ hmem with ⟨_, heq⟩ | ⟨_, heq⟩ <;> cases heq
    · exact ho ⟨id, reading, name, hmem⟩

lemma not_opens_append_nil {content : List Byte} (now : Time) {file : File} {disk : Disk}
    {writes : List Fwrite} {a : Appending}
    (happ : file.append disk content writes = .ok (.left a [])) :
    ¬Opens (.append content now :: a.shown) := by
  have hnot : ¬Opens [] := by simp [Opens]
  simpa using not_opens_append happ hnot

lemma not_opens_flush (file : File) (disk : Disk) : ¬Opens (file.flush disk).2.2 := by
  rintro ⟨id, reading, name, hmem⟩
  obtain ⟨_, heq⟩ := shown_of_flush hmem
  cases heq

lemma Started.keep (h : Started obs s) (ho : ¬Opens o)
    (hkeep : ∀ l, t.output = some l → ∃ l', s.output = some l' ∧ l.startTime_ = l'.startTime_) :
    Started (obs ++ o) t := by
  intro l hl
  obtain ⟨l', hl', heq⟩ := hkeep l hl
  rw [openedAt_append_of_not_opens ho, heq]
  exact h l' hl'

lemma Started.move {e : Event} (h : Started obs s) (hm : Move basename flushInterval s e t o) :
    Started (obs ++ o) t := by
  cases hm with
  | construct reading ok hout =>
    rintro l ⟨⟩
    exact ⟨reading, by rw [openedAt_append]; rfl, rfl⟩
  | append content ans l file a hout hfile happ =>
    have hno := not_opens_append_nil ans.now happ
    exact h.keep hno (by rintro _ ⟨⟩; exact ⟨l, hout, rfl⟩)
  | appendFlush content ans l file a hout hfile happ =>
    exact h.keep (not_opens_append happ (not_opens_flush _ _))
      (by rintro _ ⟨⟩; exact ⟨l, hout, rfl⟩)
  | appendRoll content ans l file a fp hout hfile happ =>
    rintro _ ⟨⟩
    refine ⟨ans.reading, ?_, rfl⟩
    rw [openedAt_append, List.foldl_cons, List.foldl_append]
    rfl
  | flush l file hout hfile =>
    refine h.keep ?_ (by rintro _ ⟨⟩; exact ⟨l, hout, rfl⟩)
    rintro ⟨id, reading, name, hmem⟩
    rcases List.mem_cons.mp hmem with heq | hmem
    · cases heq
    · exact not_opens_flush _ _ ⟨id, reading, name, hmem⟩
  | destroy | destroyNull =>
    intro l hl
    cases hl

lemma started_of_run (h : (system basename flushInterval).Run obs s) : Started obs s :=
  h.invariant (P := Started) (fun _ hl => by cases hl) fun _ _ _ _ _ _ hs he =>
    hs.move (.of_step he)

/-! ### Rolls -/

/-- An `append` opens a file if and only if its key is a new one. -/
lemma Move.opens_iff {e : Event} {content : List Byte} {now : Time}
    (hm : Move basename flushInterval s e t (.append content now :: o)) :
    ∃ l, s.output = some l ∧
      (Opens (.append content now :: o) ↔ dayStart now ≠ l.startTime_) := by
  cases hm with
  | append _ ans l file a hout hfile happ hday =>
    have hno := not_opens_append_nil ans.now happ
    exact ⟨l, hout, iff_of_false hno (by simpa using hday)⟩
  | appendFlush _ ans l file a hout hfile happ hday =>
    exact ⟨l, hout, iff_of_false (not_opens_append happ (not_opens_flush _ _))
      (by simpa using hday)⟩
  | appendRoll _ ans l file a fp hout hfile happ hday =>
    refine ⟨l, hout, iff_of_true
      ⟨s.world.made, ans.reading, logName l.basename_ ans.reading, ?_⟩ hday⟩
    exact List.mem_cons_of_mem _ (List.mem_append_right _ (List.mem_cons_self ..))

/-- In every run, an `append` opens a new file exactly when the day has changed, if and only if
its reading is in the minute in which the current file was opened or on another day. -/
theorem rolls_daily_iff (h : (system basename flushInterval).Run obs s) {content : List Byte}
    {now : Time} {e : Event}
    (he : (system basename flushInterval).step s e = some (t, .append content now :: o)) :
    ∃ t₀, openedAt obs = some t₀ ∧
      ((Opens (.append content now :: o) ↔ utcDay now ≠ utcDay t₀) ↔
        minute now = minute t₀ ∨ utcDay now ≠ utcDay t₀) := by
  obtain ⟨l, hout, hopens⟩ := (Move.of_step he).opens_iff
  obtain ⟨t₀, ht₀, hstart⟩ := started_of_run h l hout
  refine ⟨t₀, ht₀, ?_⟩
  rw [hopens, hstart, Ne, dayStart_eq_iff]
  have hday : minute now = minute t₀ → utcDay now = utcDay t₀ := utcDay_eq_of_minute
  tauto

/-- A record that comes in the minute of the first file. -/
theorem rolls_daily_iff_minute : ∃ (obs o : List Obs) (s t : State),
    (system "log" 3).Run obs s ∧
      (system "log" 3).step s (.append [120] ⟨[⟨1, 0⟩], 1700000010, 0, true⟩) =
        some (t, .append [120] 1700000010 :: o) ∧
      openedAt obs = some 1700000000 ∧
      (Opens (.append [120] 1700000010 :: o) ↔ utcDay 1700000010 ≠ utcDay 1700000000) := by
  obtain ⟨s, obs, t, o, hexec, hstep, hopened⟩ : ∃ s obs t o,
      (system "log" 3).exec init [.construct 1700000000 true] = some (s, obs) ∧
      (system "log" 3).step s (.append [120] ⟨[⟨1, 0⟩], 1700000010, 0, true⟩) =
        some (t, .append [120] 1700000010 :: o) ∧ openedAt obs = some 1700000000 :=
    ⟨_, _, _, _, rfl, rfl, rfl⟩
  have hrun : (system "log" 3).Run obs s := .of_exec _ hexec
  obtain ⟨t₀, ht₀, hiff⟩ := rolls_daily_iff hrun hstep
  obtain rfl : t₀ = 1700000000 := Option.some.inj (ht₀.symm.trans hopened)
  exact ⟨obs, o, s, t, hrun, hstep, hopened, hiff.mpr (.inl (by decide))⟩

/-- Forty seconds after its first file was opened, on the same day, the log opens a second one. -/
theorem rolls_within_day : ∃ (obs o : List Obs) (s t : State),
    (system "log" 3).Run obs s ∧
      (system "log" 3).step s (.append [120] ⟨[⟨1, 0⟩], 1700000040, 1700000040, true⟩) =
        some (t, .append [120] 1700000040 :: o) ∧
      openedAt obs = some 1700000000 ∧ utcDay 1700000040 = utcDay 1700000000 ∧
      Opens (.append [120] 1700000040 :: o) := by
  obtain ⟨s, obs, t, o, hexec, hstep, hopened, hmem⟩ : ∃ s obs t o,
      (system "log" 3).exec init [.construct 1700000000 true] = some (s, obs) ∧
      (system "log" 3).step s (.append [120] ⟨[⟨1, 0⟩], 1700000040, 1700000040, true⟩) =
        some (t, .append [120] 1700000040 :: o) ∧ openedAt obs = some 1700000000 ∧
      .opened 1 1700000040 "log20231114-221400_.log" ∈ o :=
    ⟨_, _, _, _, rfl, rfl, rfl, by decide⟩
  exact ⟨obs, o, s, t, .of_exec _ hexec, hstep, hopened, by decide, 1, _, _,
    List.mem_cons_of_mem _ hmem⟩

end ClwServer.LogFile
