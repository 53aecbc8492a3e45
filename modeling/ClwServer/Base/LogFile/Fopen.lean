import ClwServer.Base.LogFile.Step

/-!
# A failed `fopen`

The constructor of `File` reports that `fopen` has failed, and returns. `rollFile` then puts the
new object in the place of the old one, whose file it closes.
-/

namespace ClwServer.LogFile

open Cpp Posix

/-- A `LogFile`, with the calls that end in a fault. -/
def faultSystem (basename : String) (flushInterval : ℤ) :
    System (Except Fault State) Event Obs :=
  .faulting init (exec basename flushInterval)

/-- The call uses the stream of the current file, and there is none: `fwrite_unlocked` in
`append`, `fflush` in `flush`, `fclose` in the destructor. -/
def UsesNull (s : State) : Event → Prop
  | .append .. | .flush | .destroy => ∃ id, s.file = some ⟨id, none⟩
  | .construct .. => False

/-- The call makes a `File`, and `fopen` fails. -/
def FopenFails (s : State) : Event → Prop
  | .construct _ ok => ok = false
  | .append _ ans => ans.ok = false ∧ ∃ l, s.output = some l ∧ dayStart ans.now ≠ l.startTime_
  | .flush | .destroy => False

/-- The call has a meaning, and a stream for what it uses. -/
def Safe : Except Fault State → Event → Except Fault State → Prop
  | .ok s, e, r => ¬UsesNull s e ∧ ∃ t, r = .ok t
  | .error _, _, _ => True

section Replay

variable (basename : String) (flushInterval : ℤ) (es : List Event)

/-- Behind a call in which `fopen` has failed, the records go to the file of before. -/
def RecordsKept : Prop :=
  ∀ pre e mid content ans post s obs file,
    es = pre ++ e :: (mid ++ .append content ans :: post) →
    (faultSystem basename flushInterval).exec (.ok init) pre = some (.ok s, obs) →
    FopenFails s e → s.file = some file → ∀ r obs' r' o,
    (faultSystem basename flushInterval).exec (.ok init) (pre ++ e :: mid) = some (r, obs') →
    (faultSystem basename flushInterval).step r (.append content ans) = some (r', o) →
    (∃ t, r' = .ok t) ∧ ∀ id bytes, .wrote id bytes ∈ o → id = file.id

/-- No call follows a call in which `fopen` has failed. -/
def FailsLast : Prop :=
  ∀ pre e post s obs, es = pre ++ e :: post →
    (faultSystem basename flushInterval).exec (.ok init) pre = some (.ok s, obs) →
    FopenFails s e → post = []

end Replay

variable {basename : String} {flushInterval : ℤ} {s t : State} {e : Event} {o : List Obs}

lemma step_of_exec (h : exec basename flushInterval s e = some (.ok (t, o))) :
    (system basename flushInterval).step s e = some (t, o) := by
  simp only [system, h]
  rfl

/-- The calls that are defined make a run of the `LogFile`. -/
theorem run_of_faultSystem {obs : List Obs}
    (h : (faultSystem basename flushInterval).Run obs (.ok s)) :
    (system basename flushInterval).Run obs s :=
  System.Run.of_faulting (M := system basename flushInterval) h fun _ _ _ _ => step_of_exec

/-! ### Behind a failed `fopen` -/

lemma file_of_fopenFails (hfail : FopenFails s e)
    (h : exec basename flushInterval s e = some (.ok (t, o))) :
    ∃ l id, t.output = some l ∧ l.file_ = some ⟨id, none⟩ := by
  cases Move.of_step (step_of_exec h) with
  | construct reading ok hout =>
    obtain rfl : ok = false := hfail
    exact ⟨_, _, rfl, rfl⟩
  | append content ans l file a hout hfile happ hday
  | appendFlush content ans l file a hout hfile happ hday =>
    obtain ⟨-, l', hl', hne⟩ := hfail
    cases hout.symm.trans hl'
    exact absurd hday hne
  | appendRoll content ans l file a fp hout hfile happ hday hfp =>
    obtain ⟨hok, -⟩ := hfail
    refine ⟨_, s.world.made, rfl, ?_⟩
    simp only [newFile, hok]
    rfl
  | flush | destroy | destroyNull => exact hfail.elim

/-- The next call, whichever it is, uses a null pointer. -/
lemma usesNull_of_null {l : Members} {id : ℕ} (hout : s.output = some l)
    (hfile : l.file_ = some ⟨id, none⟩) {r : Except Fault (State × List Obs)}
    (h : exec basename flushInterval s e = some r) : UsesNull s e := by
  have hnull : ∃ id, s.file = some ⟨id, none⟩ := ⟨id, (file_of_output hout).trans hfile⟩
  cases e with
  | construct reading ok =>
    simp only [exec, hout] at h
    cases h
  | append | flush | destroy => exact hnull

lemma append_null (id : ℕ) (disk : Disk) (content : List Byte) (writes : List Fwrite) :
    (File.append ⟨id, none⟩ disk content writes = .error .nullDeref) ∨
      ∃ a, File.append ⟨id, none⟩ disk content writes = .ok (.inside a) := by
  cases writes with
  | nil => exact .inr ⟨_, InputLoop.run_nil rfl⟩
  | cons => exact .inl rfl

/-- To use the null pointer is a fault, but for `fflush`, which takes it to be another call. -/
theorem fault_of_usesNull (hnull : UsesNull s e) {r : Except Fault (State × List Obs)}
    (h : exec basename flushInterval s e = some r) : e = .flush ∨ r = .error .nullDeref := by
  cases e with
  | construct => exact hnull.elim
  | flush => exact .inl rfl
  | append content ans =>
    right
    obtain ⟨id, hfile⟩ := hnull
    obtain ⟨l, hout, hl⟩ := Option.bind_eq_some_iff.mp hfile
    simp only [exec, hout, Option.bind_some, hl, deref_some] at h
    rcases append_null id s.world.disk content ans.writes with happ | ⟨a, happ⟩
    · rw [happ] at h
      exact (Option.some.inj h).symm
    · rw [happ] at h
      cases h
  | destroy =>
    right
    obtain ⟨id, hfile⟩ := hnull
    obtain ⟨l, hout, hl⟩ := Option.bind_eq_some_iff.mp hfile
    simp only [exec, hout, Option.map_some, hl, closeFile] at h
    exact (Option.some.inj h).symm

/-! ### With a stream -/

/-- The current file has a stream. -/
def Open (s : State) : Prop := ∀ l, s.output = some l → ∃ id fp, l.file_ = some ⟨id, some fp⟩

/-- A turn of `File::append` keeps the stream. -/
lemma turn_stream {content : List Byte} {a : Appending} {w : Fwrite} {u : Turn Appending}
    (hfp : a.file.fp.isSome) (h : (fileLoop content).body a w = .ok u) :
    u.state.file.fp.isSome := by
  obtain ⟨fp, hfp⟩ := Option.isSome_iff_exists.mp hfp
  simp only [fileLoop, turn, unlockWrite, hfp, deref_some, ok_bind, Except.ok.injEq] at h
  subst h
  split <;> rfl

lemma stream_of_append {file : File} {disk : Disk} {content : List Byte} {writes : List Fwrite}
    {a : Appending} {rest : List Fwrite} (hfp : file.fp.isSome)
    (happ : file.append disk content writes = .ok (.left a rest)) : a.file.fp.isSome :=
  InputLoop.run_invariant (P := fun a : Appending => a.file.fp.isSome) happ hfp
    fun _ _ _ => turn_stream

lemma append_ne_error {file : File} {disk : Disk} {content : List Byte} {writes : List Fwrite}
    {f : Fault} (hfp : file.fp.isSome) : file.append disk content writes ≠ .error f := by
  intro herror
  obtain ⟨a, ha, hhead | ⟨w, hbody⟩⟩ := InputLoop.run_error_invariant
    (P := fun a : Appending => a.file.fp.isSome) herror hfp fun _ _ _ => turn_stream
  · cases hhead
  · obtain ⟨fp, hfp⟩ := Option.isSome_iff_exists.mp ha
    simp only [fileLoop, turn, unlockWrite, hfp, deref_some, ok_bind] at hbody
    cases hbody

lemma Open.step (h : Open s) (hok : ¬FopenFails s e)
    (he : exec basename flushInterval s e = some (.ok (t, o))) : Open t := by
  have hstream : ∀ l file a content (ans : Answers), s.output = some l → l.file_ = some file →
      file.append s.world.disk content ans.writes = .ok (.left a []) →
      ∃ id fp, a.file = ⟨id, some fp⟩ := by
    intro l file a content ans hout hfile happ
    obtain ⟨id, fp, hl⟩ := h l hout
    cases hfile.symm.trans hl
    obtain ⟨fp', hfp'⟩ := Option.isSome_iff_exists.mp (stream_of_append rfl happ)
    exact ⟨a.file.id, fp', by rw [← hfp']⟩
  cases Move.of_step (step_of_exec he) with
  | construct reading ok hout =>
    rintro l ⟨⟩
    obtain rfl : ok = true := by simpa [FopenFails] using hok
    exact ⟨_, _, rfl⟩
  | append content ans l file a hout hfile happ =>
    rintro _ ⟨⟩
    obtain ⟨id, fp, ha⟩ := hstream l file a content ans hout hfile happ
    exact ⟨id, fp, congrArg some ha⟩
  | appendFlush content ans l file a hout hfile happ =>
    rintro _ ⟨⟩
    obtain ⟨id, fp, ha⟩ := hstream l file a content ans hout hfile happ
    exact ⟨id, _, by rw [ha]; rfl⟩
  | appendRoll content ans l file a fp hout hfile happ hday hfp =>
    rintro _ ⟨⟩
    have htrue : ans.ok = true := by
      by_contra hfalse
      exact hok ⟨by simpa using hfalse, l, hout, hday⟩
    exact ⟨_, _, by simp only [newFile, htrue]; rfl⟩
  | flush l file hout hfile =>
    rintro _ ⟨⟩
    obtain ⟨id, fp, hl⟩ := h l hout
    cases hfile.symm.trans hl
    exact ⟨_, _, rfl⟩
  | destroy | destroyNull =>
    intro l hl
    cases hl

lemma Open.ne_error (h : Open s) {f : Fault} :
    exec basename flushInterval s e ≠ some (.error f) := by
  intro herror
  cases e with
  | construct reading ok =>
    simp only [exec] at herror
    split at herror
    · cases herror
    · cases herror
  | append content ans =>
    obtain ⟨l, hout, herror⟩ := Option.bind_eq_some_iff.mp herror
    obtain ⟨id, fp, hl⟩ := h l hout
    rw [hl, deref_some] at herror
    simp only at herror
    split at herror
    · rename_i f' happ
      exact append_ne_error rfl happ
    · rename_i a happ
      obtain ⟨fp', hfp'⟩ := Option.isSome_iff_exists.mp (stream_of_append rfl happ)
      simp only [afterAppend, rollFile, closeFile, File.close, hfp', deref_some, ok_bind]
        at herror
      split at herror
      · cases herror
      · split at herror <;> cases herror
    · cases herror
  | flush =>
    obtain ⟨l, hout, herror⟩ := Option.map_eq_some_iff.mp herror
    obtain ⟨id, fp, hl⟩ := h l hout
    rw [LogFile.flush, hl] at herror
    cases herror
  | destroy =>
    obtain ⟨l, hout, herror⟩ := Option.map_eq_some_iff.mp herror
    obtain ⟨id, fp, hl⟩ := h l hout
    simp only [hl, closeFile] at herror
    cases herror

lemma Open.not_usesNull (h : Open s) : ¬UsesNull s e := by
  have hfile : ¬∃ id, s.file = some ⟨id, none⟩ := by
    rintro ⟨id, hid⟩
    obtain ⟨l, hout, hl⟩ := Option.bind_eq_some_iff.mp hid
    obtain ⟨id', fp, hl'⟩ := h l hout
    cases hl.symm.trans hl'
  cases e with
  | construct => exact id
  | append | flush | destroy => exact hfile

/-! ### Runs -/

section Replay

variable {es : List Event} {r : Except Fault State} {obs : List Obs}

/-- As long as no `fopen` has failed, the file has a stream. -/
lemma open_of_failsLast (h : FailsLast basename flushInterval es) {pre post : List Event}
    {e : Event} (hes : es = pre ++ e :: post)
    (hpre : (faultSystem basename flushInterval).exec (.ok init) pre = some (r, obs)) :
    ∃ s, r = .ok s ∧ Open s := by
  have hok : (faultSystem basename flushInterval).AtSteps
      (fun r e _ => ∀ s, r = .ok s → ¬FopenFails s e) (.ok init) pre := by
    rintro pre' e' post' _ obs' u o rfl hpre' he' s rfl hfail
    have hnil := h pre' e' (post' ++ e :: post) s obs' (by simp [hes]) hpre' hfail
    simp at hnil
  refine hok.invariant (Q := fun r => ∃ s, r = .ok s ∧ Open s) ?_ ?_ pre [] r obs (by simp) hpre
  · exact ⟨init, rfl, fun l hl => by cases hl⟩
  · rintro _ e u o ⟨s, rfl, hopen⟩ he hok
    cases u with
    | error f => exact absurd (System.faulting_step_error.mp he).1 hopen.ne_error
    | ok t => exact ⟨t, rfl, hopen.step (hok s rfl) (System.faulting_step_ok.mp he)⟩

/-- In a sequence of calls, every call has a meaning and a stream, and what is appended behind a
failed `fopen` goes to the file of before, if and only if no call follows a failed `fopen`. -/
theorem safe_iff_failsLast
    (h : (faultSystem basename flushInterval).exec (.ok init) es = some (r, obs)) :
    ((faultSystem basename flushInterval).AtSteps Safe (.ok init) es ∧
      RecordsKept basename flushInterval es) ↔ FailsLast basename flushInterval es := by
  constructor
  · rintro ⟨hsafe, -⟩ pre e post s obs' hes hpre hfail
    cases post with
    | nil => rfl
    | cons e' post =>
      subst hes
      obtain ⟨r₀, obs₁, obs₂, hpre', hrest, -⟩ := System.exec_append.mp h
      cases hpre.symm.trans hpre'
      obtain ⟨r₁, o, _, he, hrest, -⟩ := System.exec_cons.mp hrest
      obtain ⟨r₂, o', _, he', -, -⟩ := System.exec_cons.mp hrest
      obtain ⟨-, t, rfl⟩ := hsafe pre e (e' :: post) _ _ _ _ rfl hpre he
      obtain ⟨l, id, hout, hfile⟩ :=
        file_of_fopenFails hfail (System.faulting_step_ok.mp he)
      -- the call behind the failure
      have hnext : (faultSystem basename flushInterval).exec (.ok init) (pre ++ [e]) =
          some (.ok t, obs' ++ o) :=
        System.exec_append.mpr ⟨_, _, _, hpre, System.exec_singleton.mpr he, rfl⟩
      have hsafe' := hsafe (pre ++ [e]) e' post _ _ _ _ (by simp) hnext he'
      cases r₂ with
      | error f =>
        exact absurd (usesNull_of_null hout hfile (System.faulting_step_error.mp he').1) hsafe'.1
      | ok u =>
        exact absurd (usesNull_of_null hout hfile (System.faulting_step_ok.mp he')) hsafe'.1
  · intro hlast
    refine ⟨?_, ?_⟩
    · intro pre e post r obs' r' o hes hpre he
      obtain ⟨s, rfl, hopen⟩ := open_of_failsLast hlast hes hpre
      refine ⟨hopen.not_usesNull, ?_⟩
      cases r' with
      | error f => exact absurd (System.faulting_step_error.mp he).1 hopen.ne_error
      | ok t => exact ⟨t, rfl⟩
    · intro pre e mid content ans post s obs' file hes hpre hfail
      have hnil := hlast pre e _ s obs' hes hpre hfail
      simp at hnil

/-- A record is written, and the log is rolled to a file that cannot be opened. -/
theorem safe_iff_failsLast_roll : ∃ es r obs,
    es = [.construct 1700000000 true,
      .append [119] ⟨[⟨1, 0⟩], 1700000060, 1700000060, false⟩] ∧
    (faultSystem "log" 3).exec (.ok init) es = some (r, obs) ∧
    (((faultSystem "log" 3).AtSteps Safe (.ok init) es ∧ RecordsKept "log" 3 es) ↔
      FailsLast "log" 3 es) := by
  have hfinal : ∃ es r obs,
      es = [.construct 1700000000 true,
        .append [119] ⟨[⟨1, 0⟩], 1700000060, 1700000060, false⟩] ∧
      (faultSystem "log" 3).exec (.ok init) es = some (r, obs) := ⟨_, _, _, rfl, rfl⟩
  obtain ⟨es, r, obs, hes, hexec⟩ := hfinal
  exact ⟨es, r, obs, hes, hexec, safe_iff_failsLast hexec⟩

/-- The next record is written to a null pointer. -/
theorem append_after_failed_roll : ∃ s obs,
    (faultSystem "log" 3).exec (.ok init)
      [.construct 1700000000 true, .append [119] ⟨[⟨1, 0⟩], 1700000060, 1700000060, false⟩] =
        some (.ok s, obs) ∧
    UsesNull s (.append [120] ⟨[⟨1, 0⟩], 1700000061, 0, true⟩) ∧
    (faultSystem "log" 3).step (.ok s) (.append [120] ⟨[⟨1, 0⟩], 1700000061, 0, true⟩) =
      some (.error .nullDeref, []) := by
  have hfinal : ∃ s obs,
      (faultSystem "log" 3).exec (.ok init)
        [.construct 1700000000 true, .append [119] ⟨[⟨1, 0⟩], 1700000060, 1700000060, false⟩] =
          some (.ok s, obs) ∧ s.file = some ⟨1, none⟩ ∧
      (faultSystem "log" 3).step (.ok s) (.append [120] ⟨[⟨1, 0⟩], 1700000061, 0, true⟩) =
        some (.error .nullDeref, []) := ⟨_, _, rfl, rfl, rfl⟩
  obtain ⟨s, obs, hexec, hfile, hstep⟩ := hfinal
  exact ⟨s, obs, hexec, ⟨1, hfile⟩, hstep⟩

end Replay

end ClwServer.LogFile
