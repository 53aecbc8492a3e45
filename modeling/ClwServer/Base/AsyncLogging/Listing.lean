import ClwServer.Base.Logging.Records
import ClwServer.Base.AsyncLogging.Rotation
import ClwServer.Base.LogFile.Names

/-!
# Reading the log

Whoever concatenates the files of a log in the order of their names reads the messages in the order
in which the front end took the mutex, as long as the clock is not set back. Where the messages are
the records of loggers, the files hold whole records.
-/

namespace ClwServer.AsyncLogging

open Cpp Posix

variable {basename : String} {flushInterval : ℤ} {obs : List (Obs ⊕ LogFile.Obs)}
  {p : State × LogFile.State} {listing : List String}

/-- The files were given the contents of the buffers that were written. -/
lemma contents_eq_written (h : (logging basename flushInterval).Run obs p) :
    LogFile.contents (System.rights obs) = written (System.lefts obs) := by
  have hs : (system.restrict SmallBatch).Run (System.lefts obs) p.1 := h.fst
  rw [← LogFile.texts_calls, calls_of_run h, texts_calls (nothing_dropped hs).2]

/-- In every run of the log in which no batch has more than 25 buffers, `fopen` succeeds, `fwrite`
accepts everything and the clock is not set back: what stands in the files, in the order of their
names, then in the buffer of the open file and in those of `AsyncLogging`, is all messages in
the order of the mutex. -/
theorem listing_reads_messages (h : (logging basename flushInterval).Run obs p)
    (hclock : (LogFile.openings (System.rights obs)).Pairwise (· ≤ ·))
    (hyear : ∀ t ∈ LogFile.openings (System.rights obs), t < year10000)
    (hlisting : LogFile.Listing (System.rights obs) listing) :
    listing.flatMap (fun name => p.2.world.disk name ++ LogFile.pending name p.2.stream) ++
        (toWrite p.1 ++ p.1.buffers ++ [p.1.currentBuffer]).flatMap contents =
      (appended (System.lefts obs)).flatten := by
  obtain ⟨groups, rest, hgroups, hmessages, hrest⟩ := exists_written h.fst
  rw [hlisting.cat h.snd hclock hyear, contents_eq_written h, ← hgroups, ← hmessages,
    List.flatMap_def, ← hrest]
  simp [List.flatten_flatten, List.flatten_append]

/-- Two messages go to the first file, and one to the second. -/
theorem listing_reads_messages_roll : ∃ obs p, (logging "log" 3).Run obs p ∧
    ["log20231114-221320_.log", "log20231114-221420_.log"].flatMap (fun name =>
        p.2.world.disk name ++ LogFile.pending name p.2.stream) ++
      (toWrite p.1 ++ p.1.buffers ++ [p.1.currentBuffer]).flatMap contents = [104, 105, 106] := by
  obtain ⟨obs, p, hexec, happended, hopenings, hnames⟩ : ∃ obs p,
      (logging "log" 3).exec (logging "log" 3).init
        [(some .start, none), (some .backend, some (.construct 1700000000 true)),
          (some (.append 1 [104]), none), (some (.append 2 [105]), none), (some .backend, none),
          (some .backend, none), (some .wake, none), (some .backend, none),
          (some .backend, some (.append [104, 105] ⟨[⟨2, 1⟩], 1700000060, 1700000060, true⟩)),
          (some .backend, none), (some .backend, none), (some .backend, none),
          (some .backend, none), (some .backend, some .flush), (some (.append 1 [106]), none)] =
        some (p, obs) ∧
      appended (System.lefts obs) = [[104], [105], [106]] ∧
      LogFile.openings (System.rights obs) = [1700000000, 1700000060] ∧
      LogFile.names (System.rights obs) =
        ["log20231114-221320_.log", "log20231114-221420_.log"] :=
    ⟨_, _, rfl, rfl, rfl, by decide⟩
  have hrun : (logging "log" 3).Run obs p := .of_exec _ hexec
  have hlisting : LogFile.Listing (System.rights obs)
      ["log20231114-221320_.log", "log20231114-221420_.log"] := by
    refine ⟨by decide, fun name => ?_⟩
    rw [hnames]
  have hread := listing_reads_messages hrun (by rw [hopenings]; decide)
    (by rw [hopenings]; decide) hlisting
  rw [happended] at hread
  exact ⟨obs, p, hrun, hread⟩

/-! ### The records of loggers -/

/-- Where the front end is the `output` of loggers, whose records keep to what a reader needs, the
files in the order of their names and the buffer of the open file are read back as the first
records, and the buffers of `AsyncLogging` as the others. -/
theorem listing_reads_records {localtime : ℤ → Logger.TimeText} {us : List (ℕ × Logger.Use)}
    (h : (logging basename flushInterval).Run obs p)
    (hclock : (LogFile.openings (System.rights obs)).Pairwise (· ≤ ·))
    (hyear : ∀ t ∈ LogFile.openings (System.rights obs), t < year10000)
    (hlisting : LogFile.Listing (System.rights obs) listing)
    (hus : ∀ q ∈ us, q.2.Readable localtime)
    (hlog : Logger.logAll localtime (fun _ => .zero) us = .ok (appended (System.lefts obs))) :
    ∃ k, Logger.readLog (listing.flatMap fun name =>
          p.2.world.disk name ++ LogFile.pending name p.2.stream) =
        some ((us.take k).map fun q => q.2.record localtime) ∧
      Logger.readLog ((toWrite p.1 ++ p.1.buffers ++ [p.1.currentBuffer]).flatMap contents) =
        some ((us.drop k).map fun q => q.2.record localtime) := by
  obtain ⟨groups, rest, hgroups, hmessages, hrest⟩ := exists_written h.fst
  rw [Logger.logAll_eq (fun _ => Logger.valid_zero) hus] at hlog
  rw [← Except.ok.inj hlog, List.flatten_append] at hmessages
  obtain ⟨first, others, rfl, hfirst, hothers⟩ := List.map_eq_append_iff.mp hmessages.symm
  refine ⟨first.length, ?_, ?_⟩
  · rw [hlisting.cat h.snd hclock hyear, contents_eq_written h, ← hgroups, ← List.flatten_flatten,
      ← hfirst, List.take_left]
    exact Logger.readLog_map fun q hq => hus q (List.mem_append_left _ hq)
  · rw [List.flatMap_def, ← hrest, ← List.flatten_flatten, ← hothers, List.drop_left]
    exact Logger.readLog_map fun q hq => hus q (List.mem_append_right _ hq)

/-- The record of the first thread is on the disk, and that of the second one in a buffer. -/
lemma exists_twoRecords : ∃ obs p, (logging "log" 3).Run obs p ∧
    LogFile.openings (System.rights obs) = [1704067200] ∧
    LogFile.Listing (System.rights obs) ["log20240101-000000_.log"] ∧
    Logger.logAll (fun _ => Logger.midnight) (fun _ => .zero) Logger.twoUses =
      .ok (appended (System.lefts obs)) ∧
    (p.2.world.disk "log20240101-000000_.log").length = 37 := by
  obtain ⟨obs, p, hexec, happended, hopenings, hnames, hlen⟩ : ∃ obs p,
      (logging "log" 3).exec (logging "log" 3).init
        [(some .start, none), (some .backend, some (.construct 1704067200 true)),
          (some (.append 1 (literal "2024-01-01 00:00:00INFO a.cc:1 hello\n")), none),
          (some .backend, none), (some .backend, none), (some .wake, none), (some .backend, none),
          (some .backend, some (.append (literal "2024-01-01 00:00:00INFO a.cc:1 hello\n")
            ⟨[⟨37, 0⟩], 1704067200, 1704067200, true⟩)),
          (some (.append 2 (literal "2024-01-01 00:00:00WARNb.cc:12 (null)-3\n")), none)] =
        some (p, obs) ∧
      appended (System.lefts obs) = [literal "2024-01-01 00:00:00INFO a.cc:1 hello\n",
        literal "2024-01-01 00:00:00WARNb.cc:12 (null)-3\n"] ∧
      LogFile.openings (System.rights obs) = [1704067200] ∧
      LogFile.names (System.rights obs) = ["log20240101-000000_.log"] ∧
      (p.2.world.disk "log20240101-000000_.log").length = 37 :=
    ⟨_, _, rfl, rfl, rfl, by decide, by decide⟩
  refine ⟨obs, p, .of_exec _ hexec, hopenings, ⟨by decide, fun name => by rw [hnames]⟩, ?_, hlen⟩
  rw [Logger.logAll_eq (fun _ => Logger.valid_zero) Logger.readable_twoUses, happended]
  decide

theorem listing_reads_records_two : ∃ obs p k, (logging "log" 3).Run obs p ∧
    Logger.readLog (p.2.world.disk "log20240101-000000_.log" ++
        LogFile.pending "log20240101-000000_.log" p.2.stream) =
      some ((Logger.twoUses.take k).map fun q => q.2.record fun _ => Logger.midnight) ∧
    Logger.readLog ((toWrite p.1 ++ p.1.buffers ++ [p.1.currentBuffer]).flatMap contents) =
      some ((Logger.twoUses.drop k).map fun q => q.2.record fun _ => Logger.midnight) := by
  obtain ⟨obs, p, hrun, hopenings, hlisting, hlog, -⟩ := exists_twoRecords
  obtain ⟨k, hfiles, hbuffers⟩ := listing_reads_records hrun (by rw [hopenings]; decide)
    (by rw [hopenings]; decide) hlisting Logger.readable_twoUses hlog
  rw [List.flatMap_singleton] at hfiles
  exact ⟨obs, p, k, hrun, hfiles, hbuffers⟩

end ClwServer.AsyncLogging
