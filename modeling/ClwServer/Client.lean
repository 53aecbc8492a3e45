import Mathlib.Data.List.TakeWhile
import ClwServer.Core.System
import ClwServer.Server

/-!
# The echo client

The loop of `client.cc` and a connection to the echo server that stays up. The client sends a line
of its standard input, waits for some of the echo, shows it, and goes on with the next line. No
party sees where the other begins or ends: the socket takes a line in pieces, a chunk of the
server is some of what has come, and the client reads some of what the server has sent. The
standard output of the client takes each `write` whole.
-/

namespace ClwServer.Client

open Cpp (Byte)
open Server (Exchange Full toupper)

/-! ### The buffer -/

/-- The value of glibc. -/
def BUFSIZ : ℕ := 8192

inductive Fault
  | cpp (f : Cpp.Fault)
  /-- A byte is read that was never written. -/
  | uninitialized
  deriving DecidableEq

/-- `char buf[BUFSIZ]`. Who writes to it begins at its first byte, so what was ever written is a
front part of it. -/
structure Buffer where
  bytes : List Byte
  fits : bytes.length ≤ BUFSIZ
  deriving DecidableEq

def Buffer.uninitialized : Buffer := ⟨[], Nat.zero_le _⟩

/-- `bytes` are written to the beginning. -/
def Buffer.store (buf : Buffer) (bytes : List Byte) : Except Fault Buffer :=
  if h : bytes.length ≤ BUFSIZ then
    .ok ⟨bytes ++ buf.bytes.drop bytes.length, by
      have hfits := buf.fits
      rw [List.length_append, List.length_drop]
      omega⟩
  else
    .error (.cpp .overrun)

/-- The bytes in front of the first zero, as far as any were written. -/
def Buffer.text (buf : Buffer) : List Byte := buf.bytes.takeWhile (· ≠ 0)

/-- `strlen(buf)` -/
def Buffer.strlen (buf : Buffer) : Except Fault ℕ :=
  if buf.text.length < buf.bytes.length then .ok buf.text.length
  else .error (if buf.bytes.length < BUFSIZ then .uninitialized else .cpp .overrun)

/-! ### The client -/

/-- The next line of the input with its newline, or the first `n` bytes of it. -/
def line : ℕ → List Byte → List Byte
  | 0, _ => []
  | _, [] => []
  | n + 1, c :: input => if c = 10 then [c] else c :: line n input

/-- Where the client is in its loop. -/
inductive Pc
  | fgets
  /-- In `write(cfd, buf, strlen(buf))`, where the socket has still to take `rest`. -/
  | write (rest : List Byte)
  /-- At `read(cfd, buf, sizeof(buf))`. -/
  | read
  /-- At `write(STDOUT_FILENO, buf, n)`. -/
  | print (n : ℕ)
  deriving DecidableEq

structure State where
  /-- The input in front of its end. -/
  stdin : List Byte
  buf : Buffer
  pc : Pc
  stdout : List Byte
  deriving DecidableEq

/-- `fgets(buf, sizeof(buf), stdin)`, with what it has read. At the end of the input it is a null
pointer that nobody looks at, and `buf` keeps what it has. -/
def fgets (c : State) : Except Fault (List Byte × State) :=
  let l := line (BUFSIZ - 1) c.stdin
  if l = [] then
    .ok ([], c)
  else do
    let buf ← c.buf.store (l ++ [0])
    .ok (l, { c with stdin := c.stdin.drop l.length, buf := buf })

/-! ### The session -/

structure Session where
  client : State
  /-- What the socket of the client has taken and the server has not read. -/
  toServer : List Byte
  server : Server.State
  /-- How much of `server.sockfd` the client has read. -/
  taken : ℕ
  deriving DecidableEq

/-- What the server has sent and the client has not read. -/
def Session.toClient (s : Session) : List Byte := s.server.sockfd.drop s.taken

inductive Event
  | fgets
  /-- The socket takes `n` bytes of the `write`, which returns with the last one. -/
  | send (n : ℕ)
  /-- The server reads a chunk, and `onMessage` is called. -/
  | serve (e : Exchange)
  | read (n : ℕ)
  | print

inductive Obs
  /-- `fgets` has read `l`, and `bytes` are passed to `write(cfd, ..)`. -/
  | sent (l bytes : List Byte)
  | served (e : Exchange)

def init (stdin : List Byte) : Session :=
  ⟨⟨stdin, .uninitialized, .fgets, []⟩, [], Server.init, 0⟩

/-- What an event does, if its party is at that point. A `write` that blocks takes at least one
byte, and so does a `read`. -/
def call (s : Session) : Event → Option (Except Fault (Session × List Obs))
  | .fgets =>
    match s.client.pc with
    | .fgets => some do
      let (l, c) ← fgets s.client
      let n ← c.buf.strlen
      let bytes := c.buf.bytes.take n
      .ok ({ s with client := { c with pc := .write bytes } }, [.sent l bytes])
    | _ => none
  | .send n =>
    match s.client.pc with
    | .write rest =>
      if n ≤ rest.length ∧ (n = 0 → rest = []) then
        let pc := if rest.drop n = [] then .read else .write (rest.drop n)
        some (.ok ({ s with client := { s.client with pc := pc }
                            toServer := s.toServer ++ rest.take n }, []))
      else
        none
    | _ => none
  | .serve e =>
    if e.chunk.bytes <+: s.toServer then
      some (match Server.onMessage s.server e.chunk.bytes e.sockfd e.stdout with
        | .ok server =>
          .ok ({ s with toServer := s.toServer.drop e.chunk.bytes.length, server := server },
            [.served e])
        | .error f => .error (.cpp f))
    else
      none
  | .read n =>
    match s.client.pc with
    | .read =>
      if 0 < n ∧ n ≤ BUFSIZ ∧ n ≤ s.toClient.length then
        some do
          let buf ← s.client.buf.store (s.toClient.take n)
          .ok ({ s with client := { s.client with buf := buf, pc := .print n }
                        taken := s.taken + n }, [])
      else
        none
    | _ => none
  | .print =>
    match s.client.pc with
    | .print n =>
      some (.ok ({ s with client := { s.client with
        stdout := s.client.stdout ++ s.client.buf.bytes.take n, pc := .fgets } }, []))
    | _ => none

/-- The session of a client with this input. -/
def session (stdin : List Byte) : System (Except Fault Session) Event Obs :=
  .faulting (init stdin) call

variable {stdin : List Byte} {s t : Session} {obs o : List Obs}

/-! ### `fgets` and `strlen` -/

lemma store_spec (buf : Buffer) {bytes : List Byte} (h : bytes.length ≤ BUFSIZ) : ∃ buf' : Buffer,
    buf.store bytes = .ok buf' ∧ buf'.bytes = bytes ++ buf.bytes.drop bytes.length :=
  ⟨_, dif_pos h, rfl⟩

lemma take_text (buf : Buffer) : buf.bytes.take buf.text.length = buf.text :=
  (List.prefix_iff_eq_take.mp (List.takeWhile_prefix _)).symm

/-- A zero ends the text. -/
lemma text_of_zero {buf : Buffer} {l more : List Byte} (h : buf.bytes = l ++ 0 :: more) :
    buf.text = l.takeWhile (· ≠ 0) := by
  rw [Buffer.text, h]
  clear h
  induction l with
  | nil => simp
  | cons c l ih => simp only [List.cons_append, List.takeWhile_cons, ih]

lemma strlen_of_zero {buf : Buffer} {l more : List Byte} (h : buf.bytes = l ++ 0 :: more) :
    buf.strlen = .ok buf.text.length := by
  have hle : buf.text.length ≤ l.length := by
    rw [text_of_zero h]
    exact (List.takeWhile_prefix _).length_le
  apply if_pos
  rw [h, List.length_append, List.length_cons]
  omega

lemma line_isPrefix (n : ℕ) (input : List Byte) : line n input <+: input := by
  induction n generalizing input with
  | zero => exact List.nil_prefix
  | succ n ih =>
    cases input with
    | nil => exact List.nil_prefix
    | cons c input =>
      rw [line]
      split
      · exact List.prefix_append [c] input
      · exact List.prefix_cons_inj c |>.mpr (ih input)

lemma length_line_le (n : ℕ) (input : List Byte) : (line n input).length ≤ n := by
  induction n generalizing input with
  | zero => rfl
  | succ n ih =>
    cases input with
    | nil => exact Nat.zero_le _
    | cons c input =>
      rw [line]
      split
      · exact Nat.succ_le_succ (Nat.zero_le n)
      · exact Nat.succ_le_succ (ih input)

lemma line_eq_nil {n : ℕ} {input : List Byte} (h : line (n + 1) input = []) : input = [] := by
  cases input with
  | nil => rfl
  | cons c input =>
    rw [line] at h
    split at h <;> cases h

/-- Either the input has come to its end, or a line is stored, with a zero behind it. -/
lemma fgets_spec (c : State) :
    c.stdin = [] ∧ fgets c = .ok ([], c) ∨
      ∃ l rest more buf, l ≠ [] ∧ l ++ rest = c.stdin ∧ buf.bytes = l ++ 0 :: more ∧
        fgets c = .ok (l, { c with stdin := rest, buf := buf }) := by
  by_cases hl : line (BUFSIZ - 1) c.stdin = []
  · exact .inl ⟨line_eq_nil hl, if_pos hl⟩
  · right
    have hfits : (line (BUFSIZ - 1) c.stdin ++ [0]).length ≤ BUFSIZ := by
      rw [List.length_append]
      exact Nat.succ_le_succ (length_line_le (BUFSIZ - 1) c.stdin)
    obtain ⟨buf, hstore, hbytes⟩ := store_spec c.buf hfits
    refine ⟨_, c.stdin.drop (line (BUFSIZ - 1) c.stdin).length, _, buf, hl,
      List.prefix_iff_eq_append.mp (line_isPrefix _ _), by rw [hbytes, List.append_assoc]; rfl, ?_⟩
    simp only [fgets, if_neg hl, hstore]
    rfl

/-! ### What a run has shown -/

/-- The lines that `fgets` has read. -/
def lines (obs : List Obs) : List (List Byte) :=
  obs.filterMap fun
    | .sent l _ => some l
    | .served _ => none

/-- What was passed to `write(cfd, ..)`. -/
def sent (obs : List Obs) : List (List Byte) :=
  obs.filterMap fun
    | .sent _ bytes => some bytes
    | .served _ => none

/-- The calls of `onMessage`. -/
def served (obs : List Obs) : List Exchange :=
  obs.filterMap fun
    | .sent _ _ => none
    | .served e => some e

section Append

variable (obs o : List Obs)

@[simp] lemma sent_append : sent (obs ++ o) = sent obs ++ sent o := List.filterMap_append

@[simp] lemma served_append : served (obs ++ o) = served obs ++ served o :=
  List.filterMap_append

end Append

/-- The call of `onMessage` that an event is. -/
def Event.served : Event → List Exchange
  | .serve e => [e]
  | _ => []

/-! ### The steps -/

inductive Move (s : Session) : Session → List Obs → Prop
  /-- `fgets` stores a line, and the part in front of its first zero is sent. -/
  | line (l rest : List Byte) (buf : Buffer) (hpc : s.client.pc = .fgets) (hl : l ≠ [])
      (hstdin : l ++ rest = s.client.stdin) (htext : buf.text = l.takeWhile (· ≠ 0)) :
      Move s { s with client := { s.client with stdin := rest, buf := buf, pc := .write buf.text } }
        [.sent l buf.text]
  /-- At the end of the input what is in the buffer is sent. -/
  | resend (hpc : s.client.pc = .fgets) (hstdin : s.client.stdin = []) :
      Move s { s with client := { s.client with pc := .write s.client.buf.text } }
        [.sent [] s.client.buf.text]
  | send (rest : List Byte) (n : ℕ) (hpc : s.client.pc = .write rest) (hn : n ≤ rest.length) :
      Move s { s with client := { s.client with
                        pc := if rest.drop n = [] then .read else .write (rest.drop n) }
                      toServer := s.toServer ++ rest.take n } []
  | serve (e : Exchange) (rest : List Byte) (hrest : e.chunk.bytes ++ rest = s.toServer) :
      Move s { s with
        toServer := rest
        server := ⟨s.server.sockfd ++ Server.write (e.chunk.bytes.map toupper) e.sockfd,
          s.server.stdout ++ Server.write (e.chunk.bytes.map toupper) e.stdout⟩ } [.served e]
  | read (n : ℕ) (buf : Buffer) (hpc : s.client.pc = .read) (hn : n ≤ s.toClient.length)
      (hbuf : buf.bytes.take n = s.toClient.take n) :
      Move s { s with client := { s.client with buf := buf, pc := .print n }
                      taken := s.taken + n } []
  | print (n : ℕ) (hpc : s.client.pc = .print n) :
      Move s { s with client := { s.client with
        stdout := s.client.stdout ++ s.client.buf.bytes.take n, pc := .fgets } } []

/-- What `strlen` counts is the text, and only at the end of the input may there be none. -/
lemma call_fgets (hpc : s.client.pc = .fgets) {r : Except Fault (Session × List Obs)}
    (h : call s .fgets = some r) :
    (∃ t o, r = .ok (t, o) ∧ Move s t o ∧ served o = []) ∨
      s.client.stdin = [] ∧ ∃ f, r = .error f := by
  simp only [call, hpc, Option.some.injEq] at h
  rcases fgets_spec s.client with ⟨hstdin, heq⟩ | ⟨l, rest, more, buf, hl, hstdin, hbuf, heq⟩
  · rw [heq] at h
    by_cases htext : s.client.buf.text.length < s.client.buf.bytes.length
    · have hstrlen : s.client.buf.strlen = .ok s.client.buf.text.length := if_pos htext
      left
      refine ⟨_, _, h.symm.trans ?_, .resend hpc hstdin, rfl⟩
      show (s.client.buf.strlen >>= _) = _
      rw [hstrlen]
      show Except.ok _ = _
      rw [take_text]
    · right
      obtain ⟨f, hstrlen⟩ : ∃ f, s.client.buf.strlen = .error f := ⟨_, if_neg htext⟩
      have herror : r = .error f := by
        refine h.symm.trans ?_
        show (s.client.buf.strlen >>= _) = _
        rw [hstrlen]
        rfl
      exact ⟨hstdin, f, herror⟩
  · left
    rw [heq] at h
    refine ⟨_, _, h.symm.trans ?_, .line l rest buf hpc hl hstdin (text_of_zero hbuf), rfl⟩
    show (buf.strlen >>= _) = _
    rw [strlen_of_zero hbuf]
    show Except.ok _ = _
    rw [take_text]

/-- Only a `strlen` at the end of the input may be undefined. -/
lemma call_cases {e : Event} {r : Except Fault (Session × List Obs)} (h : call s e = some r) :
    (∃ t o, r = .ok (t, o) ∧ Move s t o ∧ served o = e.served) ∨
      s.client.stdin = [] ∧ ∃ f, r = .error f := by
  cases e with
  | fgets =>
    refine call_fgets ?_ h
    simp only [call] at h
    split at h
    · assumption
    · cases h
  | send n =>
    simp only [call] at h
    split at h
    · rename_i rest hpc
      split at h
      · rename_i hn
        exact .inl ⟨_, _, (Option.some.inj h).symm, .send rest n hpc hn.1, rfl⟩
      · cases h
    · cases h
  | serve e =>
    simp only [call] at h
    split at h
    · rename_i hprefix
      rw [Server.onMessage_spec] at h
      exact .inl ⟨_, _, (Option.some.inj h).symm,
        .serve e _ (List.prefix_iff_eq_append.mp hprefix), rfl⟩
    · cases h
  | read n =>
    simp only [call] at h
    split at h
    · rename_i hpc
      split at h
      · rename_i hn
        obtain ⟨-, hsize, hn⟩ := hn
        have hlen : (s.toClient.take n).length = n := List.length_take_of_le hn
        have hfits : (s.toClient.take n).length ≤ BUFSIZ := by rwa [hlen]
        obtain ⟨buf, hstore, hbytes⟩ := store_spec s.client.buf hfits
        rw [hstore] at h
        refine .inl ⟨_, _, (Option.some.inj h).symm, .read n buf hpc hn ?_, rfl⟩
        rw [hbytes, List.take_append_of_le_length (Nat.le_of_eq hlen.symm),
          List.take_take, Nat.min_self]
      · cases h
    · cases h
  | print =>
    simp only [call] at h
    split at h
    · rename_i n hpc
      exact .inl ⟨_, _, (Option.some.inj h).symm, .print n hpc, rfl⟩
    · cases h

/-! ### The bytes on their way -/

/-- What a `write(cfd, ..)` has still to send. -/
def State.unsent (c : State) : List Byte :=
  match c.pc with
  | .write rest => rest
  | _ => []

/-- What the client has read and not shown. -/
def State.unshown (c : State) : List Byte :=
  match c.pc with
  | .print n => c.buf.bytes.take n
  | _ => []

/-- What the client is going to show, if it goes on, of what it has sent. -/
def Session.inFlight (s : Session) : List Byte :=
  s.client.unshown ++ s.toClient ++ (s.toServer ++ s.client.unsent).map toupper

/-! ### Conservation -/

/-- No byte is lost, repeated or moved, but by the server. -/
structure Flows (obs : List Obs) (s : Session) : Prop where
  sent : (served obs).flatMap (·.chunk.bytes) ++ s.toServer ++ s.client.unsent =
    (Client.sent obs).flatten
  echoed : s.server.sockfd =
    (served obs).flatMap fun e => Server.write (e.chunk.bytes.map toupper) e.sockfd
  shown : s.client.stdout ++ s.client.unshown = s.server.sockfd.take s.taken
  taken : s.taken ≤ s.server.sockfd.length

lemma flows_init (stdin : List Byte) : Flows [] (init stdin) where
  sent := rfl
  echoed := rfl
  shown := rfl
  taken := Nat.le_refl _

/-- The client has asked the socket to take `bytes`. -/
lemma Flows.sends {l bytes : List Byte} {c : State} (h : Flows obs s) (hpc : s.client.pc = .fgets)
    (hstdout : c.stdout = s.client.stdout) (hwrite : c.pc = .write bytes) :
    Flows (obs ++ [.sent l bytes]) { s with client := c } where
  sent := by
    have hsent := h.sent
    simp only [State.unsent, hpc, List.append_nil] at hsent
    simp only [served_append, sent_append, List.flatten_append, State.unsent, hwrite, ← hsent]
    simp [served, Client.sent]
  echoed := by
    rw [served_append, h.echoed]
    simp [served]
  shown := by
    have hshown := h.shown
    simp only [State.unshown, hpc, List.append_nil] at hshown
    simp only [State.unshown, hwrite, List.append_nil, hstdout, hshown]
  taken := h.taken

lemma Flows.move (h : Flows obs s) (hm : Move s t o) : Flows (obs ++ o) t := by
  cases hm with
  | line l rest buf hpc hl hstdin htext => exact h.sends hpc rfl rfl
  | resend hpc hstdin => exact h.sends hpc rfl rfl
  | send rest n hpc hn =>
    have hsent := h.sent
    have hshown := h.shown
    simp only [State.unsent, State.unshown, hpc, List.append_nil] at hsent hshown
    have hunsent : State.unsent { s.client with
        pc := if rest.drop n = [] then .read else .write (rest.drop n) } = rest.drop n := by
      simp only [State.unsent]
      split_ifs with hdrop
      · exact hdrop.symm
      · rfl
    rw [List.append_nil]
    refine ⟨?_, h.echoed, ?_, h.taken⟩
    · rw [hunsent, ← hsent]
      simp
    · simp only [State.unshown]
      split_ifs <;> simpa using hshown
  | serve e rest hrest =>
    refine ⟨?_, ?_, ?_, ?_⟩
    · rw [sent_append, List.flatten_append, ← h.sent, ← hrest, served_append]
      simp [served, Client.sent]
    · rw [served_append, List.flatMap_append, ← h.echoed]
      simp [served]
    · rw [h.shown, List.take_append_of_le_length h.taken]
    · exact Nat.le_trans h.taken (List.prefix_append _ _).length_le
  | read n buf hpc hn hbuf =>
    have hsent := h.sent
    have hshown := h.shown
    simp only [State.unsent, State.unshown, hpc, List.append_nil] at hsent hshown
    rw [List.append_nil]
    refine ⟨by simpa [State.unsent] using hsent, h.echoed, ?_, ?_⟩
    · simp only [State.unshown, hbuf]
      rw [hshown, Session.toClient, ← List.take_add]
    · have htaken := h.taken
      rw [Session.toClient, List.length_drop] at hn
      show s.taken + n ≤ s.server.sockfd.length
      omega
  | print n hpc =>
    have hsent := h.sent
    have hshown := h.shown
    simp only [State.unsent, State.unshown, hpc, List.append_nil] at hsent hshown
    rw [List.append_nil]
    refine ⟨by simpa [State.unsent] using hsent, h.echoed, ?_, h.taken⟩
    simpa [State.unshown] using hshown

lemma call_ok {e : Event} (h : call s e = some (.ok (t, o))) :
    Move s t o ∧ served o = e.served := by
  rcases call_cases h with ⟨t', o', heq, hm⟩ | ⟨-, f, heq⟩
  · cases heq
    exact hm
  · cases heq

lemma flows_of_run (h : (session stdin).Run obs (.ok s)) : Flows obs s :=
  h.ok_invariant (P := Flows) (flows_init stdin) fun _ _ _ _ _ hs he => hs.move (call_ok he).1

lemma Flows.shown_append (h : Flows obs s) :
    s.client.stdout ++ s.inFlight =
      s.server.sockfd ++ (s.toServer ++ s.client.unsent).map toupper := by
  rw [Session.inFlight, ← List.append_assoc, ← List.append_assoc, h.shown, Session.toClient,
    List.take_append_drop]

lemma Flows.echo_iff (h : Flows obs s) :
    s.client.stdout ++ s.inFlight = (Client.sent obs).flatten.map toupper ↔
      ∀ e ∈ served obs, Full e := by
  have hiff := Server.flatMap_eq_iff_of_prefix (served obs) fun e =>
    Server.write_prefix (e.chunk.bytes.map toupper) e.sockfd
  simp only [Server.write_eq_iff] at hiff
  rw [h.shown_append, ← h.sent, h.echoed, ← hiff, List.append_assoc]
  simp only [List.map_append, List.map_flatMap, List.append_cancel_right_eq]

/-- In every run, what the client has shown and is going to show is the upper case of all it has
sent, if and only if every `write` of the server to the socket has taken its whole chunk. -/
theorem session_echoes_iff (h : (session stdin).Run obs (.ok s)) :
    s.client.stdout ++ s.inFlight = (sent obs).flatten.map toupper ↔ ∀ e ∈ served obs, Full e :=
  (flows_of_run h).echo_iff

/-- The socket takes a line in two pieces, and the client shows the echo of the first. -/
theorem session_echoes_iff_pieces : ∃ obs s, (session [104, 105, 10]).Run obs (.ok s) ∧
    s.client.stdout = [72] ∧ s.inFlight = [73, 10] := by
  obtain ⟨obs, s, hexec, hstdout, hsent, hfull⟩ : ∃ obs s,
      (session [104, 105, 10]).exec (session [104, 105, 10]).init
        [.fgets, .send 1, .serve ⟨⟨[104], by decide, by decide⟩, .accepted 1, .accepted 1⟩,
          .send 2, .read 1, .print] = some (.ok s, obs) ∧
      s.client.stdout = [72] ∧ (sent obs).flatten = [104, 105, 10] ∧
      ∀ e ∈ served obs, Full e := ⟨_, _, rfl, rfl, rfl, by simp [served, Full]⟩
  have hrun : (session [104, 105, 10]).Run obs (.ok s) := .of_exec _ hexec
  have hecho := (session_echoes_iff hrun).mpr hfull
  rw [hstdout, hsent] at hecho
  exact ⟨obs, s, hrun, hstdout, List.append_cancel_left hecho⟩

/-! ### Waiting for the echo -/

/-- No party can go on. -/
def Stuck (s : Session) : Prop := ∀ e, call s e = none

/-- While the client sends a line or waits for an answer, it has shown no more than the echo of
the lines before. -/
def Behind (obs : List Obs) (s : Session) : Prop :=
  s.client.pc = .read ∨ (∃ rest, s.client.pc = .write rest) →
    ∃ front bytes, sent obs = front ++ [bytes] ∧ s.client.stdout.length ≤ front.flatten.length

/-- The server sends nothing but what it was sent. -/
lemma Flows.length_le (h : Flows obs s) :
    s.client.stdout.length ≤ (Client.sent obs).flatten.length := by
  have hechoed : s.server.sockfd.length ≤
      ((served obs).flatMap (·.chunk.bytes)).length := by
    rw [h.echoed]
    induction served obs with
    | nil => exact Nat.le_refl _
    | cons e es ih =>
      have hprefix := (Server.write_prefix (e.chunk.bytes.map toupper) e.sockfd).length_le
      rw [List.length_map] at hprefix
      simp only [List.flatMap_cons, List.length_append]
      omega
  have hshown := congrArg List.length h.shown
  have hsent := congrArg List.length h.sent
  simp only [List.length_append, List.length_take] at hshown hsent
  omega

lemma Behind.move (h : Behind obs s) (hflows : Flows obs s) (hm : Move s t o) :
    Behind (obs ++ o) t := by
  intro hpc'
  cases hm with
  | line l rest buf hpc hl hstdin htext =>
    exact ⟨sent obs, _, sent_append .., hflows.length_le⟩
  | resend hpc hstdin => exact ⟨sent obs, _, sent_append .., hflows.length_le⟩
  | send rest n hpc hn =>
    rw [List.append_nil]
    exact h (.inr ⟨rest, hpc⟩)
  | serve e rest hrest =>
    obtain ⟨front, bytes, hsent, hle⟩ := h hpc'
    have hnil : sent [.served e] = [] := rfl
    exact ⟨front, bytes, by rw [sent_append, hsent, hnil, List.append_nil], hle⟩
  | read | print => simp at hpc'

lemma behind_of_run (h : (session stdin).Run obs (.ok s)) : Behind obs s := by
  have hboth : Flows obs s ∧ Behind obs s := by
    refine h.ok_invariant (P := fun obs s => Flows obs s ∧ Behind obs s)
      ⟨flows_init stdin, by simp [Behind, init]⟩ fun obs s e t o hs he => ?_
    exact ⟨hs.1.move (call_ok he).1, hs.2.move hs.1 (call_ok he).1⟩
  exact hboth.2

lemma stuck_iff : Stuck s ↔ s.client.pc = .read ∧ s.toServer = [] ∧ s.toClient = [] := by
  constructor
  · intro h
    have hpc : s.client.pc = .read := by
      cases hpc : s.client.pc with
      | read => rfl
      | fgets =>
        have hnone := h .fgets
        simp [call, hpc] at hnone
      | write rest =>
        have hnone := h (.send rest.length)
        simp [call, hpc] at hnone
      | print n =>
        have hnone := h .print
        simp [call, hpc] at hnone
    refine ⟨hpc, ?_, ?_⟩
    · cases hbytes : s.toServer with
      | nil => rfl
      | cons c rest =>
        have hnone := h (.serve ⟨⟨[c], by simp, by simp⟩, .accepted 1, .accepted 1⟩)
        simp [call, hbytes] at hnone
    · cases hbytes : s.toClient with
      | nil => rfl
      | cons c rest =>
        have hnone := h (.read 1)
        simp [call, hpc, hbytes, BUFSIZ] at hnone
  · rintro ⟨hpc, hserver, hclient⟩ e
    cases e with
    | fgets | send | print => simp only [call, hpc]
    | serve e =>
      simp [call, hserver, e.chunk.pos]
    | read n =>
      have hlen : s.toClient.length = 0 := by rw [hclient, List.length_nil]
      simp only [call, hpc, hlen]
      rw [if_neg (by omega)]

/-! ### The lines of the input -/

/-- The input was read in order, and a line is sent up to its first zero. -/
structure Reads (stdin : List Byte) (obs : List Obs) (s : Session) : Prop where
  input : (lines obs).flatten ++ s.client.stdin = stdin
  text : ∀ l bytes, .sent l bytes ∈ obs → l ≠ [] → bytes = l.takeWhile (· ≠ 0)

lemma reads_init (stdin : List Byte) : Reads stdin [] (init stdin) where
  input := rfl
  text := by simp

lemma Reads.move (h : Reads stdin obs s) (hm : Move s t o) : Reads stdin (obs ++ o) t := by
  have hinput := h.input
  cases hm with
  | line l rest buf hpc hl hstdin htext =>
    refine ⟨?_, ?_⟩
    · rw [← hstdin, ← List.append_assoc] at hinput
      simpa [lines] using hinput
    · intro l' bytes hmem hne
      rcases List.mem_append.mp hmem with hold | hnew
      · exact h.text l' bytes hold hne
      · cases List.mem_singleton.mp hnew
        exact htext
  | resend hpc hstdin =>
    refine ⟨by simpa [lines] using hinput, ?_⟩
    intro l' bytes hmem hne
    rcases List.mem_append.mp hmem with hold | hnew
    · exact h.text l' bytes hold hne
    · cases List.mem_singleton.mp hnew
      exact absurd rfl hne
  | serve e rest hrest =>
    refine ⟨by simpa [lines] using hinput, ?_⟩
    intro l' bytes hmem hne
    rcases List.mem_append.mp hmem with hold | hnew
    · exact h.text l' bytes hold hne
    · cases List.mem_singleton.mp hnew
  | send | read | print =>
    rw [List.append_nil]
    exact ⟨hinput, h.text⟩

lemma reads_of_run (h : (session stdin).Run obs (.ok s)) : Reads stdin obs s :=
  h.ok_invariant (P := Reads stdin) (reads_init stdin)
    fun _ _ _ _ _ hs he => hs.move (call_ok he).1

/-- Nothing is undefined before the end of the input. -/
lemma lines_of_error {f : Fault} (h : (session stdin).Run obs (.error f)) :
    (lines obs).flatten = stdin := by
  refine h.invariant (P := fun obs r => ∀ f, r = .error f → (lines obs).flatten = stdin)
    (by simp [session, System.faulting]) ?_ f rfl
  rintro obs (_ | s) e r o hr - he f rfl
  · cases he
  · obtain ⟨hcall, rfl⟩ := System.faulting_step_error.mp he
    rcases call_cases hcall with ⟨t, o, heq, -⟩ | ⟨hstdin, -⟩
    · cases heq
    · have hinput := (reads_of_run hr).input
      rwa [hstdin, List.append_nil, ← List.append_nil obs] at hinput

/-- Lines without a zero are sent whole. -/
lemma Reads.sent_eq (h : Reads stdin obs s) (hzero : 0 ∉ stdin) (hlines : [] ∉ lines obs) :
    sent obs = lines obs := by
  refine List.filterMap_congr fun x hx => ?_
  cases x with
  | served e => rfl
  | sent l bytes =>
    have hmem : l ∈ lines obs := List.mem_filterMap.mpr ⟨_, hx, rfl⟩
    have hne : l ≠ [] := by
      rintro rfl
      exact hlines hmem
    have hwhole : l.takeWhile (· ≠ 0) = l := by
      refine List.takeWhile_eq_self_iff.mpr fun c hc => ?_
      have hstdin : c ∈ stdin := by
        rw [← h.input]
        exact List.mem_append_left _ (List.mem_flatten.mpr ⟨l, hmem, hc⟩)
      simp only [decide_eq_true_eq]
      rintro rfl
      exact hzero hstdin
    rw [h.text l bytes hx hne, hwhole]

/-- Where nothing but whole lines is sent and the server sends its chunks whole, an answer is due to
the client that waits for one. -/
lemma not_stuck_of_run (h : (session stdin).Run obs (.ok s)) (hsent : sent obs = lines obs)
    (hlines : [] ∉ lines obs) (hfull : ∀ e ∈ served obs, Full e) : ¬Stuck s := by
  intro hstuck
  obtain ⟨hpc, hserver, hclient⟩ := stuck_iff.mp hstuck
  obtain ⟨front, bytes, hlast, hle⟩ := behind_of_run h (.inl hpc)
  -- everything has come back, also the last line
  have hflight : s.inFlight = [] := by
    simp [Session.inFlight, State.unshown, State.unsent, hpc, hserver, hclient]
  have hlen := congrArg List.length ((flows_of_run h).echo_iff.mpr hfull)
  rw [hflight, hlast] at hlen
  simp only [List.append_nil, List.length_map, List.flatten_append, List.flatten_singleton,
    List.length_append] at hlen
  have hbytes : bytes = [] := List.eq_nil_of_length_eq_zero (by omega)
  exact hlines (by rw [← hsent, hlast, hbytes]; simp)

/-- As long as the input has no zero and has not come to its end, and the server sends its chunks
whole: nothing is undefined, the client shows the upper case of its input, in order and without
a gap, and it never waits for an answer that does not come. -/
theorem lines_echoed (hzero : 0 ∉ stdin) {r : Except Fault Session}
    (h : (session stdin).Run obs r) (hlines : [] ∉ lines obs)
    (hfull : ∀ e ∈ served obs, Full e) :
    (∀ f, r = .error f → (lines obs).flatten = stdin) ∧
    ∀ s, r = .ok s → (lines obs).flatten ++ s.client.stdin = stdin ∧
      s.client.stdout ++ s.inFlight = (lines obs).flatten.map toupper ∧ ¬Stuck s := by
  refine ⟨fun f hr => lines_of_error (hr ▸ h), ?_⟩
  rintro s rfl
  have hreads := reads_of_run h
  have hsent := hreads.sent_eq hzero hlines
  have hecho := (flows_of_run h).echo_iff.mpr hfull
  rw [hsent] at hecho
  exact ⟨hreads.input, hecho, not_stuck_of_run h hsent hlines hfull⟩

/-- The client has sent its second line, and waits with the rest of the first still to come. -/
theorem lines_echoed_two : ∃ obs s, (session [104, 105, 10, 33, 10]).Run obs (.ok s) ∧
    s.client.stdout = [72] ∧ s.inFlight = [73, 10, 33, 10] ∧ ¬Stuck s := by
  obtain ⟨obs, s, hexec, hstdout, hlines, hfull⟩ : ∃ obs s,
      (session [104, 105, 10, 33, 10]).exec (session [104, 105, 10, 33, 10]).init
        [.fgets, .send 3, .serve ⟨⟨[104, 105, 10], by decide, by decide⟩, .accepted 3, .accepted 3⟩,
          .read 1, .print, .fgets, .send 2] = some (.ok s, obs) ∧
      s.client.stdout = [72] ∧ lines obs = [[104, 105, 10], [33, 10]] ∧
      ∀ e ∈ served obs, Full e := ⟨_, _, rfl, rfl, rfl, by simp [served, Full]⟩
  have hrun : (session [104, 105, 10, 33, 10]).Run obs (.ok s) := .of_exec _ hexec
  obtain ⟨-, hok⟩ := lines_echoed (by decide) hrun (by rw [hlines]; decide) hfull
  obtain ⟨-, hecho, hstuck⟩ := hok s rfl
  rw [hstdout, hlines] at hecho
  exact ⟨obs, s, hrun, hstdout, List.append_cancel_left hecho, hstuck⟩

/-- A zero at the beginning of a line makes the client wait for ever. -/
example : ∃ s obs, (session [0, 10]).exec (session [0, 10]).init [.fgets, .send 0] =
    some (.ok s, obs) ∧ Stuck s := ⟨_, _, rfl, stuck_iff.mpr ⟨rfl, rfl, rfl⟩⟩

/-- Without any input `strlen` reads what nobody has written. -/
example : (session []).step (.ok (init [])) .fgets = some (.error .uninitialized, []) := rfl

end ClwServer.Client
