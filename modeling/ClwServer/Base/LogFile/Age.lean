import ClwServer.Base.LogFile.Segments

/-!
# The age of what is not written out

A record is as old as the reading its own `append` takes. What `append_unlocked` leaves in the
buffer came behind the last flush, since a roll and an explicit flush leave nothing there.
-/

namespace ClwServer.LogFile

open Cpp Posix

/-- The readings of `append`. -/
def readings (obs : List Obs) : List Time :=
  obs.filterMap fun
    | .append _ now => some now
    | _ => none

/-- The last one, or `now` where there is none. -/
def lastReading (now : Time) (obs : List Obs) : Time := (readings obs).getLast?.getD now

/-- The readings at which the file `id` was given its bytes, one for each byte; `now` is the
reading before `obs`. -/
def stamps (id : ℕ) : Time → List Obs → List Time
  | _, [] => []
  | _, .append _ now :: obs => stamps id now obs
  | now, .wrote j bytes :: obs =>
    (if j = id then List.replicate bytes.length now else []) ++ stamps id now obs
  | now, .flush :: obs | now, .opened .. :: obs | now, .output .. :: obs | now, .closed _ :: obs =>
    stamps id now obs

/-- The readings of the bytes that the file `id` has not given to the disk yet. -/
def unwritten (id : ℕ) (obs : List Obs) : List Time :=
  (stamps id 0 obs).drop (outputs id obs).length

variable {id : ℕ} {now x : Time} {obs o : List Obs}

@[simp] lemma readings_append (obs o : List Obs) :
    readings (obs ++ o) = readings obs ++ readings o :=
  List.filterMap_append

lemma lastReading_append_cons (now next : Time) (content : List Byte) (obs : List Obs) :
    lastReading now (.append content next :: obs) = lastReading next obs := by
  have hcons : readings (.append content next :: obs) = next :: readings obs := rfl
  rw [lastReading, hcons, List.getLast?_cons]
  rfl

lemma stamps_append (id : ℕ) (now : Time) (obs o : List Obs) :
    stamps id now (obs ++ o) = stamps id now obs ++ stamps id (lastReading now obs) o := by
  induction obs generalizing now with
  | nil => rfl
  | cons y obs ih =>
    cases y with
    | append content next =>
      rw [lastReading_append_cons]
      exact ih next
    | wrote j bytes =>
      rw [List.cons_append, stamps, stamps, ih, List.append_assoc]
      rfl
    | flush | opened | output | closed => exact ih now

lemma length_stamps (id : ℕ) (now : Time) (obs : List Obs) :
    (stamps id now obs).length = (received id obs).length := by
  induction obs generalizing now with
  | nil => rfl
  | cons y obs ih =>
    cases y with
    | append content next => exact ih next
    | wrote j bytes =>
      have hcons : received id (.wrote j bytes :: obs) =
          (if j = id then bytes else []) ++ received id obs := rfl
      rw [stamps, hcons, List.length_append, List.length_append, ih]
      by_cases hj : j = id <;> simp [hj]
    | flush | opened | output | closed => exact ih now

/-- Within one call of `append` all bytes have its reading. -/
lemma eq_of_mem_stamps (h : readings obs = []) (hx : x ∈ stamps id now obs) : x = now := by
  induction obs with
  | nil => cases hx
  | cons y obs ih =>
    cases y with
    | append content next => cases h
    | wrote j bytes =>
      rw [stamps] at hx
      rcases List.mem_append.mp hx with hx | hx
      · by_cases hj : j = id
        · rw [if_pos hj] at hx
          exact List.eq_of_mem_replicate hx
        · rw [if_neg hj] at hx
          cases hx
      · exact ih h hx
    | flush | opened | output | closed => exact ih h hx

/-! ### What a file holds -/

/-- What the buffer of the current file holds of the file `id`. -/
def held (id : ℕ) (cur : Option File) : List Byte :=
  match cur with
  | some ⟨j, some fp⟩ => if j = id then fp.buffer else []
  | _ => []

/-- What a file was given is on the disk, or in its buffer. -/
def Balanced (obs : List Obs) (cur : Option File) : Prop :=
  ∀ id, received id obs = outputs id obs ++ held id cur

/-- What is in no buffer is written out. -/
lemma Balanced.unwritten_eq_nil {cur : Option File} (h : Balanced obs cur)
    (hheld : held id cur = []) : unwritten id obs = [] := by
  have hlen := congrArg List.length (h id)
  rw [hheld, List.append_nil] at hlen
  rw [unwritten, List.drop_eq_nil_iff, length_stamps, hlen]

/-- What is not written out behind a step was there before it, or comes with it. -/
lemma Balanced.mem_unwritten_append {cur : Option File} (h : Balanced obs cur)
    (hx : x ∈ unwritten id (obs ++ o)) :
    x ∈ unwritten id obs ∨ x ∈ stamps id (lastReading 0 obs) o := by
  have hlen := congrArg List.length (h id)
  rw [List.length_append, ← length_stamps id 0] at hlen
  rw [unwritten, outputs_append, List.length_append, ← List.drop_drop, stamps_append,
    List.drop_append_of_le_length (by omega)] at hx
  exact List.mem_append.mp (List.mem_of_mem_drop hx)

@[simp] lemma held_self (id : ℕ) (fp : Stream) : held id (some ⟨id, some fp⟩) = fp.buffer :=
  if_pos rfl

lemma held_of_ne {file : File} (h : file.id ≠ id) : held id (some file) = [] := by
  obtain ⟨j, _ | fp⟩ := file
  · rfl
  · exact if_neg h

/-- Whatever `fwrite` accepts and appends, `File::append` loses nothing. -/
lemma held_append {file : File} {disk : Disk} {content : List Byte} {writes : List Fwrite}
    {a : Appending} {rest : List Fwrite}
    (happ : file.append disk content writes = .ok (.left a rest)) :
    a.file.id = file.id ∧ held file.id (some file) ++ received file.id a.shown =
      outputs file.id a.shown ++ held file.id (some a.file) := by
  refine InputLoop.run_invariant (P := fun s : Appending => s.file.id = file.id ∧
    held file.id (some file) ++ received file.id s.shown =
      outputs file.id s.shown ++ held file.id (some s.file)) happ ?_ ?_
  · exact ⟨rfl, by simp [received, outputs]⟩
  · rintro ⟨disk, ⟨j, fp⟩, n, retry, shown⟩ r u ⟨rfl, hbalance⟩ hturn
    cases fp with
    | none => cases hturn
    | some fp =>
      simp only [fileLoop, turn, unlockWrite, deref_some, ok_bind, Except.ok.injEq] at hturn
      subst hturn
      split
      all_goals
        refine ⟨rfl, ?_⟩
        simp only [Turn.state, received_append, outputs_append, held_self]
        rw [← List.append_assoc, hbalance]
        simp [received, outputs]

lemma received_eq_nil {j : ℕ} (hj : j ≠ id)
    (h : ∀ y ∈ o, (∃ bytes, y = .wrote j bytes) ∨ ∃ bytes, y = .output j bytes) :
    received id o = [] ∧ outputs id o = [] := by
  constructor
  all_goals
    refine List.flatMap_eq_nil_iff.mpr fun y hy => ?_
    rcases h y hy with ⟨bytes, rfl⟩ | ⟨bytes, rfl⟩ <;> simp [hj]

section Balanced

variable {file : File} {disk : Disk}

lemma Balanced.append (h : Balanced obs (some file)) {content : List Byte} (now : Time)
    {writes rest : List Fwrite} {a : Appending}
    (happ : file.append disk content writes = .ok (.left a rest)) :
    Balanced (obs ++ .append content now :: a.shown) (some a.file) := by
  obtain ⟨haid, hheld⟩ := held_append happ
  intro id
  have hcons : received id (.append content now :: a.shown) = received id a.shown ∧
      outputs id (.append content now :: a.shown) = outputs id a.shown := ⟨rfl, rfl⟩
  rw [received_append, outputs_append, hcons.1, hcons.2, h id]
  by_cases hid : file.id = id
  · subst hid
    rw [List.append_assoc, hheld, List.append_assoc]
  · obtain ⟨hreceived, houtputs⟩ := received_eq_nil hid (shown_of_append happ)
    rw [hreceived, houtputs, held_of_ne hid, held_of_ne (haid ▸ hid)]

/-- A flush gives the whole buffer to the disk. -/
lemma Balanced.flush (h : Balanced obs (some file)) (disk : Disk) :
    Balanced (obs ++ (file.flush disk).2.2) (some (file.flush disk).2.1) ∧
      ∀ id, held id (some (file.flush disk).2.1) = [] := by
  obtain ⟨j, _ | fp⟩ := file
  · exact ⟨by simpa [File.flush] using h, fun _ => rfl⟩
  · have hempty : ∀ id, held id (some ⟨j, some { fp with buffer := [] }⟩) = [] := by
      intro id
      simp [held]
    refine ⟨fun id => ?_, hempty⟩
    rw [File.flush, hempty, received_append, outputs_append, h id]
    simp [received, outputs, held]

lemma Balanced.close {fp : Stream} (h : Balanced obs (some ⟨id, some fp⟩)) :
    Balanced (obs ++ [.output id fp.buffer, .closed id]) none := by
  intro i
  rw [received_append, outputs_append, h i]
  simp [received, outputs, held]

/-- A new file holds nothing, whether `fopen` succeeds or not. -/
lemma held_newFile (id : ℕ) (w : World) (basename : String) (reading : Time) (ok : Bool) :
    held id (some (newFile w basename reading ok)) = [] := by
  cases ok <;> simp [newFile, fopen, held]

lemma Balanced.opened (h : Balanced obs none) (w : World) (basename : String) (reading : Time)
    (ok : Bool) : Balanced (obs ++ [.opened w.made reading (logName basename reading)])
      (some (newFile w basename reading ok)) := by
  intro id
  rw [held_newFile, received_append, outputs_append, h id]
  simp [received, outputs, held]

/-- What `append` leaves behind where it flushes. -/
lemma Balanced.appendFlush (h : Balanced obs (some file)) {content : List Byte} (now : Time)
    {writes rest : List Fwrite} {a : Appending}
    (happ : file.append disk content writes = .ok (.left a rest)) :
    Balanced (obs ++ .append content now :: (a.shown ++ (a.file.flush a.disk).2.2))
      (some (a.file.flush a.disk).2.1) ∧ ∀ id, held id (some (a.file.flush a.disk).2.1) = [] := by
  obtain ⟨hflush, hempty⟩ := (h.append now happ).flush a.disk
  rw [List.append_assoc] at hflush
  exact ⟨hflush, hempty⟩

/-- What `append` leaves behind where it rolls: the new file is opened before the old one is
closed. -/
lemma Balanced.appendRoll (h : Balanced obs (some file)) {content : List Byte} (now : Time)
    {writes rest : List Fwrite} {a : Appending}
    (happ : file.append disk content writes = .ok (.left a rest)) {fp : Stream}
    (hfp : a.file.fp = some fp) (w : World) (basename : String) (reading : Time) (ok : Bool) :
    Balanced (obs ++ .append content now :: (a.shown ++
      [.opened w.made reading (logName basename reading), .output a.file.id fp.buffer,
        .closed a.file.id])) (some (newFile w basename reading ok)) := by
  have hwrite := h.append now happ
  have hafile : a.file = ⟨a.file.id, some fp⟩ := by rw [← hfp]
  rw [hafile] at hwrite
  intro id
  have hid := hwrite.close.opened w basename reading ok id
  simpa [received, outputs] using hid

end Balanced

/-! ### Runs -/

/-- What is not written out came with the last flush of `append`, or behind it. -/
structure Aged (flushInterval : ℤ) (obs : List Obs) (s : State) : Prop where
  balanced : Balanced obs s.file
  interval : ∀ l, s.output = some l → l.flushInterval_ = flushInterval
  flushed : ∀ l, s.output = some l → l.lastFlush_ = 0 ∨ l.lastFlush_ ∈ readings obs
  recent : ∀ l, s.output = some l → ∀ id, ∀ x ∈ unwritten id obs, l.lastFlush_ ≤ x

lemma readings_eq_nil {id : ℕ}
    (h : ∀ y ∈ o, (∃ bytes, y = .wrote id bytes) ∨ ∃ bytes, y = .output id bytes) :
    readings o = [] := by
  refine List.filterMap_eq_nil_iff.mpr fun y hy => ?_
  rcases h y hy with ⟨bytes, rfl⟩ | ⟨bytes, rfl⟩ <;> rfl

variable {basename : String} {flushInterval : ℤ} {s t : State} {e : Event}

/-- Where nothing is left in a buffer, nothing is too old. -/
lemma Aged.of_empty {l : Members} (hout : s.output = some l) (hbalanced : Balanced obs l.file_)
    (hempty : ∀ id, held id l.file_ = []) (hinterval : l.flushInterval_ = flushInterval)
    (hflushed : l.lastFlush_ = 0 ∨ l.lastFlush_ ∈ readings obs) : Aged flushInterval obs s where
  balanced := by rwa [file_of_output hout]
  interval := by
    intro l' hl'
    cases hout.symm.trans hl'
    exact hinterval
  flushed := by
    intro l' hl'
    cases hout.symm.trans hl'
    exact hflushed
  recent := by
    intro l' _ id x hx
    rw [hbalanced.unwritten_eq_nil (hempty id)] at hx
    cases hx

/-- Without a `LogFile` everything is written out. -/
lemma Aged.of_none (hout : s.output = none) (hbalanced : Balanced obs none) :
    Aged flushInterval obs s := by
  refine ⟨?_, ?_, ?_, ?_⟩
  · rwa [State.file, hout]
  all_goals
    intro l hl
    rw [hout] at hl
    cases hl

lemma Aged.flushed_append (h : Aged flushInterval obs s) {l : Members} (hout : s.output = some l)
    (o : List Obs) : l.lastFlush_ = 0 ∨ l.lastFlush_ ∈ readings (obs ++ o) := by
  rw [readings_append]
  exact (h.flushed l hout).imp_right (List.mem_append_left _)

lemma Aged.move (h : Aged flushInterval obs s) (hclock : (readings (obs ++ o)).Pairwise (· ≤ ·))
    (hm : Move basename flushInterval s e t o) : Aged flushInterval (obs ++ o) t := by
  have hbalanced := h.balanced
  cases hm with
  | construct reading ok hout =>
    rw [State.file, hout] at hbalanced
    exact .of_empty rfl (hbalanced.opened _ _ _ ok) (held_newFile · _ _ _ ok) rfl (.inl rfl)
  | append content ans l file a hout hfile happ =>
    rw [file_of_output hout, hfile] at hbalanced
    refine ⟨hbalanced.append _ happ, ?_, ?_, ?_⟩
    · rintro _ ⟨⟩
      exact h.interval l hout
    · rintro _ ⟨⟩
      exact h.flushed_append hout _
    · rintro _ ⟨⟩ id x hx
      rcases hbalanced.mem_unwritten_append hx with hx | hx
      · exact h.recent l hout id x hx
      · -- a byte of this call, which reads the clock behind all the others
        obtain rfl := eq_of_mem_stamps (readings_eq_nil (shown_of_append happ)) hx
        rcases h.flushed l hout with hzero | hmem
        · exact hzero ▸ Nat.zero_le _
        · rw [readings_append] at hclock
          exact (List.pairwise_append.mp hclock).2.2 _ hmem _ (List.mem_cons_self ..)
  | appendFlush content ans l file a hout hfile happ =>
    rw [file_of_output hout, hfile] at hbalanced
    obtain ⟨hflush, hempty⟩ := hbalanced.appendFlush ans.now happ
    refine .of_empty rfl hflush hempty (h.interval l hout) (.inr ?_)
    rw [readings_append]
    exact List.mem_append_right _ (List.mem_cons_self ..)
  | appendRoll content ans l file a fp hout hfile happ hday hfp =>
    rw [file_of_output hout, hfile] at hbalanced
    exact .of_empty rfl (hbalanced.appendRoll ans.now happ hfp _ _ _ ans.ok)
      (held_newFile · _ _ _ ans.ok) (h.interval l hout) (h.flushed_append hout _)
  | flush l file hout hfile =>
    rw [file_of_output hout, hfile] at hbalanced
    obtain ⟨hflush, hempty⟩ := hbalanced.flush s.world.disk
    refine .of_empty rfl (fun id => ?_) hempty (h.interval l hout) (h.flushed_append hout _)
    have hid := hflush id
    rw [received_append, outputs_append] at hid ⊢
    exact hid
  | destroy l file fp hout hfile hfp =>
    rw [file_of_output hout, hfile] at hbalanced
    obtain ⟨j, _⟩ := file
    obtain rfl := hfp
    exact .of_none rfl hbalanced.close
  | destroyNull l hout hfile =>
    rw [file_of_output hout, hfile] at hbalanced
    rw [List.append_nil]
    exact .of_none rfl hbalanced

lemma aged_of_run (h : (system basename flushInterval).Run obs s)
    (hclock : (readings obs).Pairwise (· ≤ ·)) : Aged flushInterval obs s := by
  refine h.invariant (P := fun obs s => (readings obs).Pairwise (· ≤ ·) →
    Aged flushInterval obs s) (fun _ => ?_) ?_ hclock
  · exact .of_none rfl fun _ => rfl
  · intro obs s e t o _ hs he hclock
    have hpre := hclock
    rw [readings_append] at hpre
    exact (hs (List.pairwise_append.mp hpre).1).move hclock (.of_step he)

/-- When an `append` with the reading `now` returns, what is not written out was appended at most
`flushInterval` seconds before. -/
theorem unwritten_recent (h : (system basename flushInterval).Run obs s) {content : List Byte}
    {ans : Answers}
    (he : (system basename flushInterval).step s (.append content ans) = some (t, o))
    (hclock : (readings (obs ++ o)).Pairwise (· ≤ ·)) (id : ℕ) :
    ∀ x ∈ unwritten id (obs ++ o), (ans.now : ℤ) - x ≤ flushInterval := by
  intro x hx
  have hpre : (readings obs).Pairwise (· ≤ ·) := by
    rw [readings_append] at hclock
    exact (List.pairwise_append.mp hclock).1
  have hbalanced := (aged_of_run h hpre).balanced
  have haged := aged_of_run (h.step he) hclock
  cases Move.of_step he with
  | append _ _ l file a hout hfile happ hday hflush =>
    have hrecent : (l.lastFlush_ : ℤ) ≤ x := Int.ofNat_le.mpr (haged.recent _ rfl id x hx)
    have hinterval : l.flushInterval_ = flushInterval := by
      rw [← haged.interval _ rfl]
    omega
  | appendFlush _ _ l file a hout hfile happ =>
    rw [file_of_output hout, hfile] at hbalanced
    obtain ⟨hflush, hempty⟩ := hbalanced.appendFlush ans.now happ
    rw [hflush.unwritten_eq_nil (hempty id)] at hx
    cases hx
  | appendRoll _ _ l file a fp hout hfile happ hday hfp =>
    rw [file_of_output hout, hfile] at hbalanced
    have hroll := hbalanced.appendRoll ans.now happ hfp s.world l.basename_ ans.reading ans.ok
    rw [hroll.unwritten_eq_nil (held_newFile id _ _ _ ans.ok)] at hx
    cases hx

/-- Two records, the second of which comes with the flush interval used up, but not exceeded. -/
theorem unwritten_recent_two : ∃ obs s t o, (system "log" 3).Run obs s ∧
    (system "log" 3).step s (.append [121] ⟨[⟨1, 0⟩], 1700000002, 0, true⟩) = some (t, o) ∧
      (readings (obs ++ o)).Pairwise (· ≤ ·) ∧
      unwritten 0 (obs ++ o) = [1700000001, 1700000002] ∧
      ∀ x ∈ unwritten 0 (obs ++ o), ((1700000002 : ℕ) : ℤ) - x ≤ 3 := by
  have hfinal : ∃ s obs t o,
      (system "log" 3).exec init [.construct 1700000000 true,
        .append [119] ⟨[⟨1, 0⟩], 1700000000, 0, true⟩,
        .append [120] ⟨[⟨1, 0⟩], 1700000001, 0, true⟩] = some (s, obs) ∧
      (system "log" 3).step s (.append [121] ⟨[⟨1, 0⟩], 1700000002, 0, true⟩) = some (t, o) ∧
      (readings (obs ++ o)).Pairwise (· ≤ ·) ∧
      unwritten 0 (obs ++ o) = [1700000001, 1700000002] :=
    ⟨_, _, _, _, rfl, rfl, by decide, by decide⟩
  obtain ⟨s, obs, t, o, hexec, hstep, hclock, hunwritten⟩ := hfinal
  have hrun : (system "log" 3).Run obs s := .of_exec _ hexec
  exact ⟨obs, s, t, o, hrun, hstep, hclock, hunwritten, unwritten_recent hrun hstep hclock 0⟩

end ClwServer.LogFile
