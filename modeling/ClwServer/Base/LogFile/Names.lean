import Mathlib.Order.Monotone.Basic
import ClwServer.Core.Chronology
import ClwServer.Base.LogFile.Segments

/-!
# The names of the files

The name of a file is made from the clock, so that a listing by name is one by time, as long as the
clock is not set back. A reader who concatenates the files in the order of their names then reads
the texts in the order of the calls.
-/

namespace ClwServer.LogFile

open Cpp Posix

/-- The readings of the clock that the names are made from. -/
def openings (obs : List Obs) : List Time :=
  obs.filterMap fun
    | .opened _ reading _ => some reading
    | _ => none

@[simp] lemma openings_append (obs o : List Obs) :
    openings (obs ++ o) = openings obs ++ openings o := List.filterMap_append

variable {basename : String} {flushInterval : ℤ} {s t : State} {e : Event} {obs o : List Obs}

/-! ### One name -/

/-- Up to the year 9999 a later reading makes a greater name. -/
lemma logName_strictMonoOn (basename : String) :
    StrictMonoOn (logName basename) {t : ℕ | t < year10000} := by
  intro t _ u hu hlt
  rw [String.lt_iff_toList_lt, logName, logName]
  simp only [String.toList_append, List.append_assoc]
  exact List.append_left_lt (strftime_lt hlt hu _ _)

/-- The digits of the year 10000 are less than those of the year before. -/
example : logName "log" year10000 < logName "log" (year10000 - 1) := by decide

/-! ### The names of a run -/

/-- The names are made from the readings. -/
def Dated (basename : String) (obs : List Obs) : Prop :=
  names obs = (openings obs).map (logName basename)

lemma Dated.append (h : Dated basename obs) (h' : Dated basename o) : Dated basename (obs ++ o) := by
  rw [Dated, names_append, openings_append, List.map_append, h, h']

/-- The steps of a file open none. -/
lemma dated_of_file {id : ℕ}
    (h : ∀ x ∈ o, (∃ bytes, x = .wrote id bytes) ∨ ∃ bytes, x = .output id bytes) :
    Dated basename o := by
  have hnames : names o = [] := List.filterMap_eq_nil_iff.mpr fun x hx => by
    rcases h x hx with ⟨bytes, rfl⟩ | ⟨bytes, rfl⟩ <;> rfl
  have hopenings : openings o = [] := List.filterMap_eq_nil_iff.mpr fun x hx => by
    rcases h x hx with ⟨bytes, rfl⟩ | ⟨bytes, rfl⟩ <;> rfl
  rw [Dated, hnames, hopenings]
  rfl

lemma dated_of_flush (file : File) (disk : Disk) : Dated basename (file.flush disk).2.2 :=
  dated_of_file fun _ hx => .inr (shown_of_flush hx)

lemma Move.dated (hm : Move basename flushInterval s e t o)
    (hbase : ∀ l, s.output = some l → l.basename_ = basename) : Dated basename o := by
  have happend (content : List Byte) (now : Time) : Dated basename [.append content now] := rfl
  cases hm with
  | construct | destroy | destroyNull => rfl
  | append content ans l file a hout hfile happ =>
    exact (happend content ans.now).append (dated_of_file (shown_of_append happ))
  | appendFlush content ans l file a hout hfile happ =>
    refine (happend content ans.now).append ?_
    exact (dated_of_file (shown_of_append happ)).append (dated_of_flush a.file a.disk)
  | appendRoll content ans l file a fp hout hfile happ =>
    refine (happend content ans.now).append ((dated_of_file (shown_of_append happ)).append ?_)
    rw [hbase l hout]
    rfl
  | flush l file hout hfile =>
    have hflush : Dated basename [.flush] := rfl
    exact hflush.append (dated_of_flush file s.world.disk)

lemma Move.members (hm : Move basename flushInterval s e t o)
    (hbase : ∀ l, s.output = some l → l.basename_ = basename) :
    ∀ l, t.output = some l → l.basename_ = basename := by
  cases hm with
  | construct =>
    rintro _ ⟨⟩
    rfl
  | append _ _ l _ _ hout | appendFlush _ _ l _ _ hout | appendRoll _ _ l _ _ _ hout
  | flush l _ hout =>
    rintro _ ⟨⟩
    exact hbase l hout
  | destroy | destroyNull =>
    rintro _ ⟨⟩

lemma dated_of_run (h : (system basename flushInterval).Run obs s) : Dated basename obs := by
  have hboth : Dated basename obs ∧ ∀ l, s.output = some l → l.basename_ = basename := by
    refine h.invariant (P := fun obs s => Dated basename obs ∧
      ∀ l, s.output = some l → l.basename_ = basename) ⟨rfl, by rintro _ ⟨⟩⟩ ?_
    rintro obs s e t o - ⟨hdated, hbase⟩ he
    have hm := Move.of_step he
    exact ⟨hdated.append (hm.dated hbase), hm.members hbase⟩
  exact hboth.1

lemma names_pairwise_iff (h : (system basename flushInterval).Run obs s)
    (hyear : ∀ t ∈ openings obs, t < year10000) :
    (names obs).Pairwise (· ≤ ·) ↔ (openings obs).Pairwise (· ≤ ·) := by
  rw [dated_of_run h, List.pairwise_map]
  exact List.Pairwise.iff_of_mem fun ht hu =>
    (logName_strictMonoOn basename).le_iff_le (hyear _ ht) (hyear _ hu)

lemma names_nodup_iff (h : (system basename flushInterval).Run obs s)
    (hyear : ∀ t ∈ openings obs, t < year10000) : (names obs).Nodup ↔ (openings obs).Nodup := by
  rw [dated_of_run h, List.Nodup, List.Nodup, List.pairwise_map]
  exact List.Pairwise.iff_of_mem fun ht hu =>
    ((logName_strictMonoOn basename).eq_iff_eq (hyear _ ht) (hyear _ hu)).not

/-- In every run up to the year 9999, the files are opened in the order of their names if and only
if the clock is not set back, and no two of them have one name if and only if no two were opened
in one second. -/
theorem names_sorted_iff (h : (system basename flushInterval).Run obs s)
    (hyear : ∀ t ∈ openings obs, t < year10000) :
    ((names obs).Pairwise (· ≤ ·) ↔ (openings obs).Pairwise (· ≤ ·)) ∧
      ((names obs).Nodup ↔ (openings obs).Nodup) :=
  ⟨names_pairwise_iff h hyear, names_nodup_iff h hyear⟩

/-- A log that is rolled one minute after its begin. -/
theorem names_sorted_iff_roll : ∃ obs s, (system "log" 3).Run obs s ∧
    names obs = ["log20231114-221320_.log", "log20231114-221420_.log"] ∧
      (openings obs).Pairwise (· ≤ ·) := by
  obtain ⟨s, obs, hexec, hnames, hopenings⟩ : ∃ s obs, (system "log" 3).exec (system "log" 3).init
      [.construct 1700000000 true, .append [119] ⟨[⟨1, 0⟩], 1700000060, 1700000060, true⟩] =
        some (s, obs) ∧
      names obs = ["log20231114-221320_.log", "log20231114-221420_.log"] ∧
      openings obs = [1700000000, 1700000060] := ⟨_, _, rfl, by decide, rfl⟩
  have hrun : (system "log" 3).Run obs s := .of_exec _ hexec
  have hyear : ∀ t ∈ openings obs, t < year10000 := by
    rw [hopenings]
    decide
  refine ⟨obs, s, hrun, hnames, (names_sorted_iff hrun hyear).1.mp ?_⟩
  rw [hnames]
  decide

/-! ### A listing by name -/

/-- The names `listing` of the files of a run, in order. -/
structure Listing (obs : List Obs) (listing : List String) : Prop where
  sorted : listing.Pairwise (· < ·)
  mem_iff : ∀ name, name ∈ listing ↔ name ∈ names obs

/-- Files whose names are in order leave their texts in the order of a listing. -/
lemma flatMap_under {files : List Segment} {listing : List String}
    (hfiles : (files.map Prod.fst).Pairwise (· ≤ ·)) (hsorted : listing.Pairwise (· < ·))
    (hmem : ∀ name, name ∈ listing ↔ name ∈ files.map Prod.fst) :
    listing.flatMap (under · files) = files.flatMap (·.2.flatten) := by
  induction files generalizing listing with
  | nil =>
    obtain rfl : listing = [] := List.eq_nil_iff_forall_not_mem.mpr fun name h => by
      simpa using (hmem name).mp h
    rfl
  | cons f files ih =>
    rw [List.map_cons, List.pairwise_cons] at hfiles
    obtain ⟨hle, hfiles⟩ := hfiles
    simp only [List.map_cons, List.mem_cons] at hmem
    -- the listing begins with the name of the first file
    obtain ⟨rest, rfl⟩ : ∃ rest, listing = f.1 :: rest := by
      have hfirst : f.1 ∈ listing := (hmem f.1).mpr (.inl rfl)
      cases listing with
      | nil => cases hfirst
      | cons name rest =>
        have hge : f.1 ≤ name := by
          rcases (hmem name).mp (List.mem_cons_self ..) with rfl | hname
          · exact le_rfl
          · exact hle name hname
        rcases List.mem_cons.mp hfirst with heq | hrest
        · exact ⟨rest, by rw [heq]⟩
        · exact absurd hge (not_le_of_gt (List.rel_of_pairwise_cons hsorted hrest))
    have hne : ∀ name ∈ rest, f.1 ≠ name := fun name hname =>
      (List.rel_of_pairwise_cons hsorted hname).ne
    have hunder : (f.1 :: rest).flatMap (under · (f :: files)) =
        f.2.flatten ++ (f.1 :: rest).flatMap (under · files) := by
      have hrest : rest.flatMap (under · (f :: files)) = rest.flatMap (under · files) := by
        rw [List.flatMap_congr]
        intro name hname
        simp only [under, List.flatMap_cons, if_neg (hne name hname), List.nil_append]
      rw [List.flatMap_cons, hrest]
      simp [under]
    rw [hunder, List.flatMap_cons (f := fun g : Segment => g.2.flatten),
      List.append_cancel_left_eq]
    by_cases hagain : f.1 ∈ files.map Prod.fst
    · refine ih hfiles hsorted fun name => ?_
      rw [hmem]
      refine ⟨?_, .inr⟩
      rintro (rfl | hname)
      · exact hagain
      · exact hname
    · have hnil : under f.1 files = [] := by
        refine List.flatMap_eq_nil_iff.mpr fun g hg => if_neg ?_
        rintro heq
        exact hagain (heq ▸ List.mem_map_of_mem hg)
      rw [List.flatMap_cons, hnil, List.nil_append]
      refine ih hfiles hsorted.of_cons fun name => ⟨fun hname => ?_, fun hname => ?_⟩
      · have hin := (hmem name).mp (List.mem_cons_of_mem _ hname)
        exact hin.resolve_left (Ne.symm (hne name hname))
      · have hin := (hmem name).mpr (.inr hname)
        refine (List.mem_cons.mp hin).resolve_left ?_
        rintro rfl
        exact hagain hname

/-- A reader of the listing reads the texts, but for what the open file has in its buffer. -/
lemma Listing.cat {listing : List String} (hl : Listing obs listing)
    (h : ((system basename flushInterval).restrict Reliable).Run obs s)
    (hclock : (openings obs).Pairwise (· ≤ ·)) (hyear : ∀ t ∈ openings obs, t < year10000) :
    listing.flatMap (fun name => s.world.disk name ++ pending name s.stream) =
      (contents obs).flatten := by
  obtain ⟨cur, files, hholds, hseg⟩ := accounted_of_run h
  have hnames : (files.map Prod.fst).Pairwise (· ≤ ·) := by
    rw [hseg.names]
    exact (names_pairwise_iff h.of_restrict hyear).mpr hclock
  have hdisk : ∀ name, s.world.disk name ++ pending name s.stream = under name files := by
    rw [hholds.stream]
    exact hseg.disk
  simp only [hdisk]
  rw [flatMap_under hnames hl.sorted (by rw [hseg.names]; exact hl.mem_iff), ← hseg.contents]
  simp [List.flatMap_def, List.flatten_flatten, Function.comp_def]

end ClwServer.LogFile
