import ClwServer.Base.LogFile.Step

/-!
# The files of a log

Where every `fopen` succeeds and `fwrite` accepts everything, each call of `append` puts its text
into one file, the files take the texts in the order of the calls, and a file gets its first byte
when its predecessor is closed. What the disk has under a name are the texts of the files of that
name, in order, but for what the buffer of the open file holds.
-/

namespace ClwServer.LogFile

open Cpp Posix

/-! ### What a run has shown -/

/-- The texts passed to `append`. -/
def contents (obs : List Obs) : List (List Byte) :=
  obs.filterMap fun
    | .append content _ => some content
    | _ => none

/-- The names of the files that were opened. -/
def names (obs : List Obs) : List String :=
  obs.filterMap fun
    | .opened _ _ name => some name
    | _ => none

/-- What was given to the file `id`. -/
def received (id : ℕ) (obs : List Obs) : List Byte :=
  obs.flatMap fun
    | .wrote j bytes => if j = id then bytes else []
    | _ => []

/-- What the file `id` has given to the disk. -/
def outputs (id : ℕ) (obs : List Obs) : List Byte :=
  obs.flatMap fun
    | .output j bytes => if j = id then bytes else []
    | _ => []

/-- A call by the owner of the log. -/
inductive Call
  | append (content : List Byte)
  | flush
  deriving DecidableEq

/-- The calls of `append` and of `flush`. -/
def calls (obs : List Obs) : List Call :=
  obs.filterMap fun
    | .append content _ => some (.append content)
    | .flush => some .flush
    | _ => none

/-- The calls that an event makes. -/
def Event.calls : Event → List Call
  | .append content _ => [.append content]
  | .flush => [.flush]
  | .construct _ _ | .destroy => []

/-- The texts of some calls. -/
def texts (cs : List Call) : List (List Byte) :=
  cs.filterMap fun
    | .append content => some content
    | .flush => none

lemma texts_calls (obs : List Obs) : texts (calls obs) = contents obs := by
  induction obs with
  | nil => rfl
  | cons o obs ih => cases o <;> simpa [calls, texts, contents] using ih

section Append

variable (id : ℕ) (obs o : List Obs)

@[simp] lemma calls_append : calls (obs ++ o) = calls obs ++ calls o := List.filterMap_append

@[simp] lemma contents_append : contents (obs ++ o) = contents obs ++ contents o :=
  List.filterMap_append

@[simp] lemma names_append : names (obs ++ o) = names obs ++ names o := List.filterMap_append

@[simp] lemma received_append : received id (obs ++ o) = received id obs ++ received id o :=
  List.flatMap_append

@[simp] lemma outputs_append : outputs id (obs ++ o) = outputs id obs ++ outputs id o :=
  List.flatMap_append

end Append

/-- The steps of a file are no calls. -/
lemma calls_eq_nil {o : List Obs} {id : ℕ}
    (h : ∀ x ∈ o, (∃ bytes, x = .wrote id bytes) ∨ ∃ bytes, x = .output id bytes) :
    calls o = [] := by
  refine List.filterMap_eq_nil_iff.mpr fun x hx => ?_
  rcases h x hx with ⟨bytes, rfl⟩ | ⟨bytes, rfl⟩ <;> rfl

/-- What a step shows of calls is its event. -/
lemma Move.calls_eq {basename : String} {flushInterval : ℤ} {s t : State} {e : Event}
    {o : List Obs} (h : Move basename flushInterval s e t o) : calls o = e.calls := by
  have happend : ∀ content now (a o : List Obs), calls a = [] → calls o = [] →
      calls (.append content now :: (a ++ o)) = [.append content] := by
    intro content now a o ha ho
    have hcons : .append content now :: (a ++ o) = [.append content now] ++ (a ++ o) := rfl
    rw [hcons, calls_append, calls_append, ha, ho]
    rfl
  have hflush : ∀ (file : File) (disk : Disk), calls (file.flush disk).2.2 = [] :=
    fun file disk => calls_eq_nil fun _ hx => .inr (shown_of_flush hx)
  cases h with
  | construct | destroy | destroyNull => rfl
  | append content ans l file a hout hfile happ =>
    rw [← List.append_nil a.shown]
    exact happend _ _ _ _ (calls_eq_nil (shown_of_append happ)) rfl
  | appendFlush content ans l file a hout hfile happ =>
    exact happend _ _ _ _ (calls_eq_nil (shown_of_append happ)) (hflush _ _)
  | appendRoll content ans l file a fp hout hfile happ =>
    exact happend _ _ _ _ (calls_eq_nil (shown_of_append happ)) rfl
  | flush l file =>
    have hcons : calls (.flush :: (file.flush s.world.disk).2.2) =
        .flush :: calls (file.flush s.world.disk).2.2 := rfl
    rw [hcons, hflush]
    rfl

/-! ### The invariant -/

/-- A file by its name and the texts it was given. -/
abbrev Segment := String × List (List Byte)

/-- What the files `files` leave under a name. -/
def under (name : String) (files : List Segment) : List Byte :=
  files.flatMap fun f => if f.1 = name then f.2.flatten else []

/-- What the file `id` is given. -/
def given (files : List Segment) (id : ℕ) : List Byte := files[id]?.elim [] fun f => f.2.flatten

lemma given_of_le {files : List Segment} {id : ℕ} (h : files.length ≤ id) :
    given files id = [] := by
  rw [given, List.getElem?_eq_none h]
  rfl

lemma given_append (front : List Segment) (f : Segment) (id : ℕ) : given (front ++ [f]) id =
    if id = front.length then f.2.flatten else given front id := by
  rcases Nat.lt_trichotomy id front.length with hlt | heq | hgt
  · rw [given, List.getElem?_append_left hlt, if_neg (by omega)]
    rfl
  · rw [given, heq, if_pos rfl, List.getElem?_concat_length]
    rfl
  · have hlen : (front ++ [f]).length ≤ id := by
      rw [List.length_append, List.length_singleton]
      omega
    rw [given_of_le hlen, if_neg (by omega), given_of_le (by omega)]

/-- What the buffer of the open file holds for a name. -/
def pending (name : String) (cur : Option Stream) : List Byte :=
  cur.elim [] fun fp => if fp.name = name then fp.buffer else []

/-- The files that a run has opened, the last of which is `cur`, while it is open. -/
structure Segmented (obs : List Obs) (disk : Disk) (cur : Option Stream)
    (files : List Segment) : Prop where
  names : files.map Prod.fst = names obs
  contents : files.flatMap Prod.snd = contents obs
  received : ∀ id, received id obs = given files id
  disk : ∀ name, disk name ++ pending name cur = under name files
  fresh : ∀ id, files.length ≤ id → outputs id obs = []
  current : ∀ fp, cur = some fp → ∃ front texts, files = front ++ [(fp.name, texts)] ∧
    outputs front.length obs ++ fp.buffer = texts.flatten
  closed : ∀ id, id < files.length → (cur.isSome → id + 1 < files.length) →
    .closed id ∈ obs ∧ outputs id obs = LogFile.received id obs

variable {obs o : List Obs} {disk : Disk} {cur : Option Stream} {fp : Stream}
  {files front : List Segment} {texts : List (List Byte)}

lemma segmented_init : Segmented [] (fun _ => []) none [] where
  names := rfl
  contents := rfl
  received := fun _ => rfl
  disk := fun _ => rfl
  fresh := fun _ _ => rfl
  current := by simp
  closed := by simp

/-- Only what the observations show matters, not their order. -/
lemma Segmented.congr {obs' : List Obs} (h : Segmented obs disk cur files)
    (hnames : LogFile.names obs' = LogFile.names obs)
    (hcontents : LogFile.contents obs' = LogFile.contents obs)
    (hreceived : ∀ id, LogFile.received id obs' = LogFile.received id obs)
    (houtputs : ∀ id, outputs id obs' = outputs id obs)
    (hclosed : ∀ id, .closed id ∈ obs → .closed id ∈ obs') : Segmented obs' disk cur files where
  names := hnames ▸ h.names
  contents := hcontents ▸ h.contents
  received := fun id => (hreceived id).trans (h.received id)
  disk := h.disk
  fresh := fun id hid => (houtputs id).trans (h.fresh id hid)
  current := by
    intro fp hfp
    obtain ⟨front, texts, hfiles, hout⟩ := h.current fp hfp
    exact ⟨front, texts, hfiles, by rw [houtputs, hout]⟩
  closed := by
    intro id hid hlast
    obtain ⟨hmem, hout⟩ := h.closed id hid hlast
    exact ⟨hclosed id hmem, by rw [houtputs, hreceived, hout]⟩

/-- A new file is opened. -/
lemma Segmented.opened (h : Segmented obs disk none files) (id reading : ℕ) (name : String) :
    Segmented (obs ++ [.opened id reading name]) disk (some ⟨name, []⟩)
      (files ++ [(name, [])]) where
  names := by
    rw [List.map_append, h.names, names_append]
    rfl
  contents := by
    rw [List.flatMap_append, h.contents, contents_append]
    rfl
  received := by
    intro i
    rw [received_append, h.received i, given_append]
    by_cases hi : i = files.length
    · simp [hi, given_of_le, LogFile.received]
    · simp [hi, LogFile.received]
  disk := by
    intro other
    rw [under, List.flatMap_append, ← under, ← h.disk other]
    simp [pending]
  fresh := by
    intro i hi
    rw [List.length_append] at hi
    rw [outputs_append, h.fresh i (by omega)]
    rfl
  current := by
    rintro _ ⟨⟩
    refine ⟨files, [], rfl, ?_⟩
    rw [outputs_append, h.fresh _ le_rfl]
    rfl
  closed := by
    intro i _ hlast
    have hi : i < files.length := by simpa using hlast rfl
    obtain ⟨hmem, hout⟩ := h.closed i hi (by simp)
    exact ⟨List.mem_append_left _ hmem, by simpa [outputs, LogFile.received] using hout⟩

/-- What the open file was given is on the disk or in its buffer. -/
lemma Segmented.texts_eq (h : Segmented obs disk (some fp) (front ++ [(fp.name, texts)])) :
    outputs front.length obs ++ fp.buffer = texts.flatten := by
  obtain ⟨front', texts', hfiles, hout⟩ := h.current fp rfl
  obtain ⟨rfl, heq⟩ := List.append_inj' hfiles rfl
  obtain rfl : texts = texts' := by simpa using heq
  exact hout

/-- The files in front of the open one are closed. -/
lemma Segmented.closed_front (h : Segmented obs disk (some fp) (front ++ [(fp.name, texts)]))
    {id : ℕ} (hid : id < front.length) :
    .closed id ∈ obs ∧ outputs id obs = LogFile.received id obs :=
  h.closed id (by simp; omega) fun _ => by simpa using hid

lemma Segmented.closed_front_append
    (h : Segmented obs disk (some fp) (front ++ [(fp.name, texts)])) {id : ℕ}
    (hid : id < front.length) (hreceived : LogFile.received id o = [])
    (houtputs : outputs id o = []) :
    .closed id ∈ obs ++ o ∧ outputs id (obs ++ o) = LogFile.received id (obs ++ o) := by
  obtain ⟨hmem, hout⟩ := h.closed_front hid
  refine ⟨List.mem_append_left _ hmem, ?_⟩
  rw [outputs_append, received_append, hout, hreceived, houtputs]

/-- The open file gets a text, and gives something of its buffer to the disk. -/
lemma Segmented.write (h : Segmented obs disk (some fp) (front ++ [(fp.name, texts)]))
    (content : List Byte) (now k : ℕ) :
    Segmented (obs ++ [.append content now, .wrote front.length content,
        .output front.length ((fp.buffer ++ content).take k)])
      (disk.append fp.name ((fp.buffer ++ content).take k))
      (some ⟨fp.name, (fp.buffer ++ content).drop k⟩)
      (front ++ [(fp.name, texts ++ [content])]) where
  names := by
    have hnames := h.names
    simp only [List.map_append, List.map_cons, List.map_nil] at hnames ⊢
    rw [hnames, names_append]
    simp [LogFile.names]
  contents := by
    have hcontents := h.contents
    simp only [List.flatMap_append, List.flatMap_cons, List.flatMap_nil, List.append_nil]
      at hcontents ⊢
    rw [← List.append_assoc, hcontents, contents_append]
    simp [LogFile.contents]
  received := by
    intro id
    rw [received_append, h.received, given_append, given_append]
    by_cases hid : id = front.length
    · simp [hid, LogFile.received]
    · simp [hid, Ne.symm hid, LogFile.received]
  disk := by
    intro name
    have hdisk := h.disk name
    rw [under, List.flatMap_append, ← under] at hdisk ⊢
    rw [Disk.append_apply]
    by_cases hname : fp.name = name
    · simp only [pending, Option.elim_some, hname, if_true, List.flatMap_cons, List.flatMap_nil,
        List.append_nil, List.flatten_append, List.flatten_singleton, List.append_assoc,
        List.take_append_drop] at hdisk ⊢
      rw [← List.append_assoc, hdisk, List.append_assoc]
    · simpa [pending, hname] using hdisk
  fresh := by
    intro id hid
    simp only [List.length_append, List.length_singleton] at hid
    have hne : front.length ≠ id := by omega
    rw [outputs_append, h.fresh id (by simpa using hid)]
    simp [outputs, hne]
  current := by
    rintro _ ⟨⟩
    refine ⟨front, texts ++ [content], rfl, ?_⟩
    rw [List.flatten_append, ← h.texts_eq, outputs_append]
    simp [outputs]
  closed := by
    intro id _ hlast
    have hlt : id < front.length := by simpa using hlast rfl
    have hne : front.length ≠ id := by omega
    apply h.closed_front_append hlt
    · simp [LogFile.received, hne]
    · simp [outputs, hne]

/-- The whole buffer of the open file goes to the disk. -/
lemma Segmented.flush (h : Segmented obs disk (some fp) (front ++ [(fp.name, texts)])) :
    Segmented (obs ++ [.output front.length fp.buffer]) (disk.append fp.name fp.buffer)
      (some ⟨fp.name, []⟩) (front ++ [(fp.name, texts)]) where
  names := by simpa [LogFile.names] using h.names
  contents := by simpa [LogFile.contents] using h.contents
  received := by
    intro id
    rw [received_append, ← h.received id]
    simp [LogFile.received]
  disk := by
    intro name
    rw [← h.disk name, Disk.append_apply]
    simp [pending]
  fresh := by
    intro id hid
    have hne : front.length ≠ id := by
      simp only [List.length_append, List.length_singleton] at hid
      omega
    rw [outputs_append, h.fresh id hid]
    simp [outputs, hne]
  current := by
    rintro _ ⟨⟩
    refine ⟨front, texts, rfl, ?_⟩
    rw [← h.texts_eq, outputs_append]
    simp [outputs]
  closed := by
    intro id _ hlast
    have hlt : id < front.length := by simpa using hlast rfl
    have hne : front.length ≠ id := by omega
    apply h.closed_front_append hlt
    · simp [LogFile.received]
    · simp [outputs, hne]

/-- The open file is closed. -/
lemma Segmented.close (h : Segmented obs disk (some fp) (front ++ [(fp.name, texts)])) :
    Segmented (obs ++ [.output front.length fp.buffer, .closed front.length])
      (disk.append fp.name fp.buffer) none (front ++ [(fp.name, texts)]) := by
  have hflush := h.flush
  have hshown : obs ++ [.output front.length fp.buffer, .closed front.length] =
      (obs ++ [.output front.length fp.buffer]) ++ [.closed front.length] := by simp
  rw [hshown]
  refine ⟨?_, ?_, ?_, ?_, ?_, by simp, ?_⟩
  · simpa [LogFile.names] using hflush.names
  · simpa [LogFile.contents] using hflush.contents
  · intro id
    rw [received_append, ← hflush.received id]
    simp [LogFile.received]
  · intro name
    rw [← hflush.disk name]
    simp [pending]
  · intro id hid
    rw [outputs_append, hflush.fresh id hid]
    rfl
  · intro id hid _
    have hsame : outputs id [.closed front.length] = [] ∧
        LogFile.received id [.closed front.length] = [] := ⟨rfl, rfl⟩
    rw [outputs_append, received_append, hsame.1, hsame.2, List.append_nil, List.append_nil]
    by_cases hlast : id + 1 < (front ++ [(fp.name, texts)]).length
    · obtain ⟨hmem, hout⟩ := hflush.closed id hid fun _ => hlast
      exact ⟨List.mem_append_left _ hmem, hout⟩
    · obtain rfl : id = front.length := by
        simp only [List.length_append, List.length_singleton] at hid hlast
        omega
      refine ⟨List.mem_append_right _ (List.mem_singleton.mpr rfl), ?_⟩
      rw [hflush.received, given_append, if_pos rfl, ← hflush.texts_eq, List.append_nil]

/-! ### Runs -/

/-- Every `fopen` succeeds, and `fwrite` accepts all it is given. -/
def Reliable (_ : State) : Event → Prop
  | .construct _ ok => ok = true
  | .append content ans => (∀ r ∈ ans.writes, content.length ≤ r.accepts) ∧ ans.ok = true
  | .flush | .destroy => True

instance (s : State) : ∀ e : Event, Decidable (Reliable s e)
  | .construct _ _ => inferInstanceAs (Decidable (_ = _))
  | .append _ _ => inferInstanceAs (Decidable (_ ∧ _))
  | .flush | .destroy => inferInstanceAs (Decidable True)

/-- The stream of the current file. -/
def State.stream (s : State) : Option Stream :=
  s.output.bind fun l => l.file_.bind File.fp

/-- The stream of the current file of `s` is `cur`. -/
def Holds (s : State) (cur : Option Stream) (files : List Segment) : Prop :=
  s.world.made = files.length ∧
    match s.output with
    | some l => ∃ fp, cur = some fp ∧ l.file_ = some ⟨files.length - 1, some fp⟩
    | none => cur = none

/-- Where `fwrite` accepts everything, `File::append` calls it once. -/
lemma append_of_accepts {file : File} {content : List Byte} {writes : List Fwrite}
    {a : Appending} (hfp : file.fp = some fp)
    (happ : file.append disk content writes = .ok (.left a []))
    (haccepts : ∀ r ∈ writes, content.length ≤ r.accepts) :
    ∃ k, a.disk = disk.append fp.name ((fp.buffer ++ content).take k) ∧
      a.file = ⟨file.id, some ⟨fp.name, (fp.buffer ++ content).drop k⟩⟩ ∧
      a.shown = [.wrote file.id content, .output file.id ((fp.buffer ++ content).take k)] := by
  cases writes with
  | nil =>
    rw [File.append, InputLoop.run_nil rfl] at happ
    cases happ
  | cons r rs =>
    have htake : content.take r.accepts = content :=
      List.take_of_length_le (haccepts r (List.mem_cons_self ..))
    have hbody : (fileLoop content).body ⟨disk, file, 0, false, []⟩ r = .ok (.leave
        ⟨disk.append fp.name ((fp.buffer ++ content).take r.appends),
          ⟨file.id, some ⟨fp.name, (fp.buffer ++ content).drop r.appends⟩⟩, content.length, true,
          [.wrote file.id content, .output file.id ((fp.buffer ++ content).take r.appends)]⟩) := by
      simp [fileLoop, turn, unlockWrite, hfp, htake]
    rw [File.append, InputLoop.run_leave rfl hbody] at happ
    cases happ
    exact ⟨r.appends, rfl, rfl, rfl⟩

variable {basename : String} {flushInterval : ℤ} {s t : State} {e : Event}

lemma Holds.current (h : Holds s cur files) {l : Members} {file : File} (hout : s.output = some l)
    (hfile : l.file_ = some file) :
    ∃ fp, cur = some fp ∧ file = ⟨files.length - 1, some fp⟩ := by
  obtain ⟨-, hcur⟩ := h
  rw [hout] at hcur
  obtain ⟨fp, hfp, hfile'⟩ := hcur
  exact ⟨fp, hfp, Option.some.inj (hfile.symm.trans hfile')⟩

lemma Holds.stream (h : Holds s cur files) : s.stream = cur := by
  obtain ⟨-, hcur⟩ := h
  rw [State.stream]
  cases hout : s.output with
  | none =>
    rw [hout] at hcur
    exact hcur.symm
  | some l =>
    rw [hout] at hcur
    obtain ⟨fp, rfl, hfile⟩ := hcur
    simp [hfile]

/-- The current file is the last one. -/
lemma Segmented.exists_front (h : Segmented obs disk (some fp) files) :
    ∃ front texts, files = front ++ [(fp.name, texts)] ∧ files.length - 1 = front.length := by
  obtain ⟨front, texts, hfiles, -⟩ := h.current fp rfl
  refine ⟨front, texts, hfiles, ?_⟩
  rw [hfiles, List.length_append]
  rfl

/-- `File::append` puts its text into the current file. -/
lemma Segmented.fileAppend (h : Segmented obs disk (some fp) files) {content : List Byte}
    {writes : List Fwrite} {a : Appending} (now : Time)
    (happ : File.append ⟨files.length - 1, some fp⟩ disk content writes = .ok (.left a []))
    (haccepts : ∀ r ∈ writes, content.length ≤ r.accepts) :
    ∃ fp' front texts, a.file = ⟨front.length, some fp'⟩ ∧ front.length + 1 = files.length ∧
      Segmented (obs ++ .append content now :: a.shown) a.disk (some fp')
        (front ++ [(fp'.name, texts)]) := by
  obtain ⟨front, texts, rfl, hlast⟩ := h.exists_front
  obtain ⟨k, hdisk, hfile, hshown⟩ := append_of_accepts rfl happ haccepts
  refine ⟨_, front, texts ++ [content], by rw [hfile, hlast], by simp, ?_⟩
  rw [hshown, hlast, hdisk]
  exact h.write content now k

/-- Some files account for what was shown and for the state. -/
def Accounted (obs : List Obs) (s : State) : Prop :=
  ∃ cur files, Holds s cur files ∧ Segmented obs s.world.disk cur files

lemma Accounted.move (h : Accounted obs s) (hreliable : Reliable s e)
    (hm : Move basename flushInterval s e t o) : Accounted (obs ++ o) t := by
  obtain ⟨cur, files, hholds, hseg⟩ := h
  have hmade := hholds.1
  cases hm with
  | construct reading ok hout =>
    obtain rfl : ok = true := hreliable
    obtain ⟨-, hcur⟩ := hholds
    rw [hout] at hcur
    subst hcur
    refine ⟨_, _, ⟨?_, _, rfl, ?_⟩, hseg.opened _ _ _⟩
    · simpa using hmade
    · simp [newFile, fopen, hmade]
  | append content ans l file a hout hfile happ =>
    obtain ⟨fp, rfl, rfl⟩ := hholds.current hout hfile
    obtain ⟨fp', front, texts, hafile, hlen, hwrite⟩ := hseg.fileAppend ans.now happ hreliable.1
    refine ⟨_, _, ⟨?_, _, rfl, ?_⟩, hwrite⟩
    · simpa [hlen] using hmade
    · simp [hafile]
  | appendFlush content ans l file a hout hfile happ =>
    obtain ⟨fp, rfl, rfl⟩ := hholds.current hout hfile
    obtain ⟨fp', front, texts, hafile, hlen, hwrite⟩ := hseg.fileAppend ans.now happ hreliable.1
    have hflush := hwrite.flush
    rw [List.append_assoc] at hflush
    simp only [hafile, File.flush]
    refine ⟨_, _, ⟨?_, _, rfl, ?_⟩, hflush⟩
    · simpa [hlen] using hmade
    · simp
  | appendRoll content ans l file a fp' hout hfile happ hday hfp' =>
    obtain ⟨fp, rfl, rfl⟩ := hholds.current hout hfile
    obtain ⟨fp'', front, texts, hafile, hlen, hwrite⟩ := hseg.fileAppend ans.now happ hreliable.1
    obtain rfl : fp'' = fp' := Option.some.inj (by rw [← hfp', hafile])
    have hclose := hwrite.close.opened s.world.made ans.reading (logName l.basename_ ans.reading)
    refine ⟨_, _, ⟨?_, _, rfl, ?_⟩, hclose.congr ?_ ?_ ?_ ?_ ?_⟩
    · simpa [hlen] using hmade
    · simp [newFile, fopen, hreliable.2, hmade, hlen]
    all_goals simp [names, contents, received, outputs, hafile]
  | flush l file hout hfile =>
    obtain ⟨fp, rfl, rfl⟩ := hholds.current hout hfile
    obtain ⟨front, texts, rfl, hlast⟩ := hseg.exists_front
    simp only [hlast, File.flush]
    refine ⟨_, _, ⟨hmade, _, rfl, ?_⟩, hseg.flush.congr ?_ ?_ ?_ ?_ ?_⟩
    · simp
    all_goals simp [names, contents, received, outputs]
  | destroy l file fp' hout hfile hfp =>
    obtain ⟨fp, rfl, rfl⟩ := hholds.current hout hfile
    obtain rfl : fp = fp' := Option.some.inj hfp
    obtain ⟨front, texts, rfl, hlast⟩ := hseg.exists_front
    rw [hlast]
    exact ⟨_, _, ⟨hmade, rfl⟩, hseg.close⟩
  | destroyNull l hout hfile =>
    obtain ⟨-, hcur⟩ := hholds
    rw [hout] at hcur
    obtain ⟨fp, -, hsome⟩ := hcur
    rw [hfile] at hsome
    cases hsome

lemma accounted_of_run (h : ((system basename flushInterval).restrict Reliable).Run obs s) :
    Accounted obs s :=
  h.invariant (P := Accounted) ⟨none, [], ⟨rfl, rfl⟩, segmented_init⟩
    fun _ _ _ _ _ _ hs he =>
      have hstep := System.restrict_step.mp he
      hs.move hstep.1 (.of_step hstep.2)

/-! ### The order of the files -/

lemma eq_of_append_wrote {content bytes : List Byte} {now : Time} {id id' : ℕ}
    {o₁ o₂ rest : List Obs}
    (h : .append content now :: .wrote id' content :: rest = o₁ ++ .wrote id bytes :: o₂)
    (hrest : ∀ j b, .wrote j b ∉ rest) : o₁ = [.append content now] ∧ id = id' := by
  rcases o₁ with _ | ⟨x, _ | ⟨y, o₁⟩⟩
  · cases h
  · cases h
    exact ⟨rfl, rfl⟩
  · cases h
    exact absurd (by simp) (hrest id bytes)

/-- A file is given its bytes behind the call of `append`. -/
lemma Accounted.wrote (h : Accounted obs s) (hreliable : Reliable s e) {id : ℕ}
    {bytes : List Byte} {o₁ o₂ : List Obs}
    (hm : Move basename flushInterval s e t (o₁ ++ .wrote id bytes :: o₂)) :
    (∃ content now, o₁ = [.append content now]) ∧
      ∃ cur files, Segmented obs s.world.disk cur files ∧ files.length = id + 1 := by
  obtain ⟨cur, files, hholds, hseg⟩ := h
  have hfile : ∀ content ans l file a rest, e = .append content ans → s.output = some l →
      l.file_ = some file → file.append s.world.disk content ans.writes = .ok (.left a []) →
      .append content ans.now :: (a.shown ++ rest) = o₁ ++ .wrote id bytes :: o₂ →
      (∀ j b, .wrote j b ∉ rest) →
        (∃ content now, o₁ = [.append content now]) ∧
          ∃ cur files, Segmented obs s.world.disk cur files ∧ files.length = id + 1 := by
    rintro content ans l file a rest rfl hout hfile happ heq hrest
    obtain ⟨fp, rfl, rfl⟩ := hholds.current hout hfile
    obtain ⟨k, -, -, hshown⟩ := append_of_accepts rfl happ hreliable.1
    rw [hshown] at heq
    obtain ⟨ho₁, hid⟩ := eq_of_append_wrote heq (by simpa using hrest)
    obtain ⟨front, texts, rfl, hlast⟩ := hseg.exists_front
    exact ⟨⟨content, ans.now, ho₁⟩, _, _, hseg, by rw [hid, hlast, List.length_append]; rfl⟩
  generalize ho : o₁ ++ .wrote id bytes :: o₂ = o at hm
  cases hm with
  | append content ans l file a hout hf happ =>
    exact hfile content ans l file a [] rfl hout hf happ (by simpa using ho.symm) (by simp)
  | appendFlush content ans l file a hout hf happ =>
    refine hfile content ans l file a _ rfl hout hf happ ho.symm ?_
    intro j b
    cases hfp : a.file.fp <;> simp [File.flush, hfp]
  | appendRoll content ans l file a fp hout hf happ =>
    exact hfile content ans l file a _ rfl hout hf happ ho.symm (by simp)
  | construct => simp [List.append_eq_singleton_iff] at ho
  | flush l file =>
    have hmem : .wrote id bytes ∈ Obs.flush :: (file.flush s.world.disk).2.2 := by
      rw [← ho]
      simp
    cases hfp : file.fp <;> simp [File.flush, hfp] at hmem
  | destroy l file fp =>
    have hmem : .wrote id bytes ∈ [Obs.output file.id fp.buffer, .closed file.id] := by
      rw [← ho]
      simp
    simp at hmem
  | destroyNull => simp at ho

/-- When a file gets its first byte, every earlier file is closed, and has given all it got to the
disk. -/
lemma closed_of_wrote {id j : ℕ} {bytes : List Byte} {pre post : List Obs}
    (h : ((system basename flushInterval).restrict Reliable).Run (pre ++ .wrote id bytes :: post) s)
    (hj : j < id) : .closed j ∈ pre ∧ outputs j pre = received j pre := by
  obtain ⟨pre', o₁, o₂, u, e, v, rfl, hu, he⟩ := h.split
  have hstep := System.restrict_step.mp he
  obtain ⟨⟨content, now, rfl⟩, cur, files, hseg, hlen⟩ :=
    (accounted_of_run hu).wrote hstep.1 (.of_step hstep.2)
  obtain ⟨hclosed, hout⟩ := hseg.closed j (by omega) (fun _ => by omega)
  refine ⟨List.mem_append_left _ hclosed, ?_⟩
  rw [outputs_append, received_append, hout]
  rfl

end ClwServer.LogFile
