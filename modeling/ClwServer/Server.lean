import Mathlib.Data.List.TakeDrop
import ClwServer.Net.TcpConnection.Lifetime

/-!
# The echo server

`Server::onMessage` of `server.cc`, the `MessageCallback_` of every connection. It sends the upper
case of each chunk by one `write`, and does not look at the result.
-/

namespace ClwServer.Server

open Cpp Posix
open TcpConnection (Chunk)

/-- `toupper` in the C locale. A byte from `0x80` on is a negative `char`, which ISO C does not
allow; glibc returns it as it is. -/
def toupper (c : Byte) : Byte := if 97 ≤ c ∧ c ≤ 122 then c - 32 else c

/-- An outcome of `write`. -/
inductive WriteOutcome
  | accepted (n : ℕ)
  /-- The result is -1. -/
  | failed (e : Errno)
  deriving DecidableEq

/-- What the file gets by a `write` of `bytes`. -/
def write (bytes : List Byte) : WriteOutcome → List Byte
  | .accepted n => bytes.take n
  | .failed _ => []

/-- What was written. -/
structure State where
  /-- Accepted by the socket of the connection. -/
  sockfd : List Byte
  stdout : List Byte
  deriving DecidableEq

def init : State := ⟨[], []⟩

/-- `temp_buf[j] = toupper(buf[j])`, where `temp_buf` is written up to `j`. -/
def put (temp_buf : List Byte) (c : Byte) : Except Fault (List Byte) :=
  if temp_buf.length < 65536 then .ok (temp_buf ++ [toupper c]) else .error .overrun

/-- `onMessage`, with the outcomes of its two calls of `write`. -/
def onMessage (s : State) (buf : List Byte) (sockfd stdout : WriteOutcome) :
    Except Fault State := do
  let temp_buf ← buf.foldlM put []
  .ok ⟨s.sockfd ++ write temp_buf sockfd, s.stdout ++ write temp_buf stdout⟩

/-- A call of `onMessage`. -/
structure Exchange where
  chunk : Chunk
  sockfd : WriteOutcome
  stdout : WriteOutcome

/-- The calls for one connection. -/
def serve (s : State) (es : List Exchange) : Except Fault State :=
  es.foldlM (fun s e => onMessage s e.chunk.bytes e.sockfd e.stdout) s

/-- What a connection passes to `onMessage` is a sequence of chunks. -/
lemma exists_chunks {c : TcpConnection.State} {os : List TcpConnection.ReadOutcome}
    {r : Progress TcpConnection.State TcpConnection.ReadOutcome}
    (h : TcpConnection.handleRead c os = .ok r) :
    ∃ chunks : List Chunk, r.state.messages = c.messages ++ chunks.map (·.bytes) := by
  induction os generalizing c with
  | nil =>
    obtain rfl := TcpConnection.handleRead_nil_eq_ok h
    exact ⟨[], (List.append_nil _).symm⟩
  | cons o os ih =>
    have hc : TcpConnection.Alive c := TcpConnection.alive_of_handleRead h
    by_cases ho : o = .failed EAGAIN
    · subst ho
      rw [TcpConnection.handleRead_eagain hc] at h
      cases h
      exact ⟨[], (List.append_nil _).symm⟩
    · rw [TcpConnection.handleRead_cons hc ho] at h
      obtain ⟨chunks, hchunks⟩ := ih h
      cases o with
      | data chunk keeps =>
        refine ⟨chunk :: chunks, ?_⟩
        rw [hchunks, List.map_cons, ← List.singleton_append, ← List.append_assoc]
        rfl
      | eof | failed => exact ⟨chunks, hchunks⟩

/-! ### The copy -/

lemma foldlM_put {buf temp_buf : List Byte} (h : temp_buf.length + buf.length ≤ 65536) :
    buf.foldlM put temp_buf = .ok (temp_buf ++ buf.map toupper) := by
  induction buf generalizing temp_buf with
  | nil =>
    rw [List.map_nil, List.append_nil]
    rfl
  | cons c buf ih =>
    rw [List.length_cons] at h
    have hput : put temp_buf c = .ok (temp_buf ++ [toupper c]) := if_pos (by omega)
    rw [List.foldlM_cons, hput, ok_bind, ih]
    · rw [List.map_cons, List.append_assoc, List.singleton_append]
    · rw [List.length_append, List.length_singleton]
      omega

/-- A chunk fits into `temp_buf`. -/
lemma onMessage_spec (s : State) (chunk : Chunk) (sockfd stdout : WriteOutcome) :
    onMessage s chunk.bytes sockfd stdout = .ok
      ⟨s.sockfd ++ write (chunk.bytes.map toupper) sockfd,
        s.stdout ++ write (chunk.bytes.map toupper) stdout⟩ := by
  have hfits : ([] : List Byte).length + chunk.bytes.length ≤ 65536 := by
    rw [List.length_nil, Nat.zero_add]
    exact chunk.fits
  rw [onMessage, foldlM_put hfits]
  rfl

lemma serve_spec (s : State) (es : List Exchange) : ∃ t, serve s es = .ok t ∧
    t.sockfd = s.sockfd ++ es.flatMap fun e => write (e.chunk.bytes.map toupper) e.sockfd := by
  induction es generalizing s with
  | nil => exact ⟨s, rfl, (List.append_nil _).symm⟩
  | cons e es ih =>
    obtain ⟨t, ht, hsockfd⟩ := ih ⟨s.sockfd ++ write (e.chunk.bytes.map toupper) e.sockfd,
      s.stdout ++ write (e.chunk.bytes.map toupper) e.stdout⟩
    refine ⟨t, ?_, ?_⟩
    · rw [serve, List.foldlM_cons, onMessage_spec, ok_bind]
      exact ht
    · rw [hsockfd, List.flatMap_cons, List.append_assoc]

/-! ### The echo -/

/-- Some prefixes make up the whole if and only if each of them is. -/
lemma flatMap_eq_iff_of_prefix {α β : Type*} {f g : α → List β} (as : List α)
    (h : ∀ a, f a <+: g a) : as.flatMap f = as.flatMap g ↔ ∀ a ∈ as, f a = g a := by
  have hle : ∀ bs : List α, (bs.flatMap f).length ≤ (bs.flatMap g).length := by
    intro bs
    induction bs with
    | nil => exact le_rfl
    | cons b bs ih =>
      simp only [List.flatMap_cons, List.length_append]
      exact Nat.add_le_add (h b).length_le ih
  induction as with
  | nil => simp
  | cons a as ih =>
    simp only [List.flatMap_cons, List.mem_cons, forall_eq_or_imp, ← ih]
    constructor
    · intro heq
      have hlen := congrArg List.length heq
      simp only [List.length_append] at hlen
      have ha := (h a).length_le
      have has := hle as
      exact List.append_inj heq (by omega)
    · rintro ⟨ha, has⟩
      rw [ha, has]

/-- The socket takes the whole chunk. -/
def Full (e : Exchange) : Prop := ∃ n, e.sockfd = .accepted n ∧ e.chunk.bytes.length ≤ n

lemma write_prefix (bytes : List Byte) (o : WriteOutcome) : write bytes o <+: bytes := by
  cases o with
  | accepted n => exact List.take_prefix n bytes
  | failed => exact List.nil_prefix

lemma write_eq_iff (e : Exchange) :
    write (e.chunk.bytes.map toupper) e.sockfd = e.chunk.bytes.map toupper ↔ Full e := by
  cases hsockfd : e.sockfd with
  | accepted n =>
    rw [write, List.take_eq_self_iff, List.length_map]
    simp [Full, hsockfd]
  | failed =>
    have hpos := e.chunk.pos
    simp [write, Full, hsockfd, hpos]

/-- The peer gets the upper case of all it has sent if and only if every `write` to the socket
takes its whole chunk. -/
theorem echoes_iff (es : List Exchange) :
    (∃ s, serve init es = .ok s ∧ s.sockfd = (es.flatMap (·.chunk.bytes)).map toupper) ↔
      ∀ e ∈ es, Full e := by
  obtain ⟨s, hs, hsockfd⟩ := serve_spec init es
  have hiff := flatMap_eq_iff_of_prefix es fun e =>
    write_prefix (e.chunk.bytes.map toupper) e.sockfd
  simp only [write_eq_iff] at hiff
  rw [← hiff, List.map_flatMap]
  constructor
  · rintro ⟨t, ht, heq⟩
    obtain rfl : s = t := Except.ok.inj (hs.symm.trans ht)
    exact hsockfd.symm.trans heq
  · intro heq
    exact ⟨s, hs, hsockfd.trans heq⟩

/-- The window of a slow reader is full after one byte, and open again for the next chunk. -/
theorem echo_gap : ∃ (es : List Exchange) (s : State), serve init es = .ok s ∧
    es.flatMap (·.chunk.bytes) = [104, 105, 33] ∧ s.sockfd = [72, 33] ∧
      s.sockfd ≠ (es.flatMap (·.chunk.bytes)).map toupper :=
  ⟨[⟨⟨[104, 105], by decide, by decide⟩, .accepted 1, .accepted 2⟩,
    ⟨⟨[33], by decide, by decide⟩, .accepted 1, .accepted 1⟩], _, rfl, rfl, rfl, by decide⟩

end ClwServer.Server
