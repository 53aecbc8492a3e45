import ClwServer.Base.LogFile.Segments
import Mathlib.Algebra.GroupWithZero.Nat

/-!
# The calls of `fwrite` in `File::append`

`File::append` with its locals `n` and `remain`, which are of type `size_t`. Each step is one call
of `unlockWrite` and what follows up to the next one. The results of `fwrite_unlocked` and `ferror`
come with the step.
-/

namespace ClwServer.LogFile.Append

open Cpp

structure Locals where
  n : UInt64
  remain : UInt64
  deriving DecidableEq

inductive State
  /-- In front of the first call. -/
  | first
  /-- In the loop, in front of a call. -/
  | retry (v : Locals)
  | returned (v : Locals)
  deriving DecidableEq

/-- The result of `fwrite_unlocked`, and whether `ferror` then finds an error. -/
structure Answer where
  result : UInt64
  err : Bool
  deriving DecidableEq

inductive Obs
  /-- The stream accepts `bytes`. -/
  | accepted (bytes : List Byte)
  /-- `fprintf(stderr, ..)` -/
  | message (text : List Byte)
  deriving DecidableEq

/-- `unlockWrite(content + offset, length)`, of which the stream accepts `result` bytes. -/
def unlockWrite (content : List Byte) (offset length result : UInt64) :
    Except Fault (List Byte) :=
  if offset.toNat + length.toNat ≤ content.length then
    .ok ((content.drop offset.toNat).take result.toNat)
  else
    .error .overrun

/-- `while (remain > 0)` -/
def loopTest (v : Locals) : State := if 0 < v.remain then .retry v else .returned v

/-- The number of bytes the next call of `fwrite_unlocked` is asked to write. -/
def request (length : UInt64) : State → Option UInt64
  | .first => some length
  | .retry v => some v.remain
  | .returned _ => none

/-- A call with its result, and the code behind it. -/
def call (content : List Byte) (length : UInt64) (s : State) (a : Answer) :
    Option (Except Fault (State × List Obs)) :=
  match s with
  | .first =>
    if a.result ≤ length then
      some do
        let bytes ← unlockWrite content 0 length a.result
        let n := a.result
        .ok (loopTest ⟨n, length - n⟩, [.accepted bytes])
    else
      none
  | .retry v =>
    if a.result ≤ v.remain then
      some do
        let bytes ← unlockWrite content v.n v.remain a.result
        let x := a.result
        if x = 0 then
          .ok (.returned v, .accepted bytes ::
            if a.err then [.message (literal "AppendFile::append() failed!\n")] else [])
        else
          let n := v.n + x
          .ok (loopTest ⟨n, length - n⟩, [.accepted bytes])
    else
      none
  | .returned _ => none

/-- `File::append` for `length` bytes of `content`. -/
def system (content : List Byte) (length : UInt64) : System (Except Fault State) Answer Obs :=
  .faulting .first (call content length)

/-- What the stream has accepted. -/
def accepted (obs : List Obs) : List Byte :=
  obs.flatMap fun
    | .accepted bytes => bytes
    | .message _ => []

/-- What the stream has accepted, call by call. -/
def chunks (obs : List Obs) : List (List Byte) :=
  obs.filterMap fun
    | .accepted bytes => some bytes
    | .message _ => none

/-- The results of the calls. -/
def results (es : List Answer) : List ℕ := es.map fun a => a.result.toNat

/-- The local `n`; in front of the first call nothing is written. -/
def State.n : State → ℕ
  | .first => 0
  | .retry v | .returned v => v.n.toNat

variable {content : List Byte} {length : UInt64} {es : List Answer} {obs : List Obs}
  {s : State} {v : Locals} {a : Answer}

@[simp] lemma accepted_nil : accepted [] = [] := rfl

@[simp] lemma accepted_append (obs o : List Obs) :
    accepted (obs ++ o) = accepted obs ++ accepted o := List.flatMap_append

@[simp] lemma accepted_cons_accepted (bytes : List Byte) (obs : List Obs) :
    accepted (.accepted bytes :: obs) = bytes ++ accepted obs := rfl

@[simp] lemma accepted_cons_message (text : List Byte) (obs : List Obs) :
    accepted (.message text :: obs) = accepted obs := rfl

lemma chunks_append (obs o : List Obs) : chunks (obs ++ o) = chunks obs ++ chunks o :=
  List.filterMap_append

@[simp] lemma lengths_accepted (bytes : List Byte) :
    (chunks [.accepted bytes]).map List.length = [bytes.length] := rfl

lemma results_append (es : List Answer) (a : Answer) :
    results (es ++ [a]) = results es ++ [a.result.toNat] :=
  List.map_append

@[simp] lemma n_loopTest (v : Locals) : (loopTest v).n = v.n.toNat := by
  rw [loopTest]
  split_ifs <;> rfl

/-! ### The locals -/

/-- The locals agree with each other and with what the stream has accepted. -/
structure Agree (content : List Byte) (length : UInt64) (obs : List Obs) (v : Locals) : Prop where
  accepted : accepted obs = content.take v.n.toNat
  le_length : v.n ≤ length
  remain : v.remain = length - v.n

/-- The subtraction does not underflow. -/
lemma Agree.remain_add (h : Agree content length obs v) :
    v.remain.toNat + v.n.toNat = length.toNat := by
  have hle := UInt64.le_iff_toNat_le.mp h.le_length
  rw [h.remain, UInt64.toNat_sub_of_le _ _ h.le_length]
  omega

lemma unlockWrite_eq {offset request result : UInt64}
    (h : offset.toNat + request.toNat ≤ content.length) :
    unlockWrite content offset request result =
      .ok ((content.drop offset.toNat).take result.toNat) := if_pos h

/-- Behind an addition that fits in the rest. -/
lemma Agree.add {x : UInt64} {o : List Obs} (h : Agree content length obs v) (hx : x ≤ v.remain)
    (ho : Append.accepted o = (content.drop v.n.toNat).take x.toNat) :
    (v.n + x).toNat = v.n.toNat + x.toNat ∧
      Agree content length (obs ++ o) ⟨v.n + x, length - (v.n + x)⟩ := by
  have hrest := h.remain_add
  have hx := UInt64.le_iff_toNat_le.mp hx
  have hlt := UInt64.toNat_lt length
  have hadd : (v.n + x).toNat = v.n.toNat + x.toNat := by
    rw [UInt64.toNat_add]
    exact Nat.mod_eq_of_lt (by omega)
  refine ⟨hadd, ⟨?_, ?_, rfl⟩⟩
  · rw [accepted_append, h.accepted, ho, hadd, List.take_add]
  · rw [UInt64.le_iff_toNat_le, hadd]
    omega

lemma Agree.append {o : List Obs} (h : Agree content length obs v) (ho : Append.accepted o = []) :
    Agree content length (obs ++ o) v where
  accepted := by rw [accepted_append, ho, List.append_nil, h.accepted]
  le_length := h.le_length
  remain := h.remain

/-- Behind the first call. -/
lemma agree_first {x : UInt64} (hx : x ≤ length) :
    Agree content length [.accepted (content.take x.toNat)] ⟨x, length - x⟩ where
  accepted := List.append_nil _
  le_length := hx
  remain := rfl

/-! ### The calls -/

/-- The locals agree, and every call of the loop but the last has written something. -/
inductive Inv (content : List Byte) (length : UInt64) : List Answer → List Obs → State → Prop
  | first : Inv content length [] [] .first
  | retry {es : List Answer} {obs : List Obs} {v : Locals} (hagree : Agree content length obs v)
      (hes : es ≠ []) (hcalls : es.length ≤ v.n.toNat + 1) (hrest : 0 < v.remain.toNat) :
      Inv content length es obs (.retry v)
  | returned {es : List Answer} {obs : List Obs} {v : Locals}
      (hagree : Agree content length obs v) (hcalls : es.length ≤ length.toNat + 1)
      (hend : v.n = length ∨ ∃ pre a, pre ≠ [] ∧ es = pre ++ [a] ∧ a.result = 0) :
      Inv content length es obs (.returned v)

lemma inv_loopTest (hagree : Agree content length obs v) (hes : es ≠ [])
    (hcalls : es.length ≤ v.n.toNat + 1) : Inv content length es obs (loopTest v) := by
  have hrest := hagree.remain_add
  rw [loopTest]
  split_ifs with h
  · exact .retry hagree hes hcalls (UInt64.lt_iff_toNat_lt.mp h)
  · rw [UInt64.lt_iff_toNat_lt, UInt64.toNat_zero] at h
    refine .returned hagree (by omega) (.inl (UInt64.toNat_inj.mp ?_))
    omega

lemma call_first (hlen : length.toNat ≤ content.length) (ha : a.result ≤ length) :
    call content length .first a = some (.ok (loopTest ⟨a.result, length - a.result⟩,
      [.accepted (content.take a.result.toNat)])) := by
  rw [call, if_pos ha, unlockWrite_eq (by simpa using hlen)]
  rfl

lemma call_retry (hlen : length.toNat ≤ content.length) (hagree : Agree content length obs v)
    (ha : a.result ≤ v.remain) (hx : a.result ≠ 0) :
    call content length (.retry v) a = some (.ok
      (loopTest ⟨v.n + a.result, length - (v.n + a.result)⟩,
        [.accepted ((content.drop v.n.toNat).take a.result.toNat)])) := by
  have hsum := hagree.remain_add
  rw [call, if_pos ha, unlockWrite_eq (by omega), ok_bind]
  exact congrArg some (if_neg hx)

/-- A call of the loop that writes nothing ends it. -/
lemma call_retry_zero (hlen : length.toNat ≤ content.length) (hagree : Agree content length obs v)
    (hx : a.result = 0) : ∃ o, call content length (.retry v) a = some (.ok (.returned v, o)) ∧
      accepted o = [] ∧ chunks o = [[]] := by
  have hsum := hagree.remain_add
  rw [call, if_pos (hx ▸ UInt64.zero_le), unlockWrite_eq (by omega), ok_bind]
  refine ⟨_, congrArg some (if_pos hx), ?_⟩
  rw [hx]
  cases a.err <;> simp [chunks]

/-- No call reads outside of the content. -/
lemma Inv.of_call (hlen : length.toNat ≤ content.length) (h : Inv content length es obs s)
    {req : UInt64} (hreq : request length s = some req) (ha : a.result ≤ req) :
    ∃ t o, call content length s a = some (.ok (t, o)) ∧
      Inv content length (es ++ [a]) (obs ++ o) t := by
  cases h with
  | first =>
    cases hreq
    exact ⟨_, _, call_first hlen ha, inv_loopTest (agree_first ha) (by simp) (by simp)⟩
  | @retry _ _ v hagree hes hcalls hrest =>
    cases hreq
    have hsum := hagree.remain_add
    by_cases hx : a.result = 0
    · obtain ⟨o, hcall, ho, -⟩ := call_retry_zero hlen hagree hx
      refine ⟨_, o, hcall, .returned (hagree.append ho) ?_ (.inr ⟨es, a, hes, rfl, hx⟩)⟩
      rw [List.length_append, List.length_singleton]
      omega
    · obtain ⟨hadd, hagree'⟩ := hagree.add ha (o := [.accepted _]) (List.append_nil _)
      refine ⟨_, _, call_retry hlen hagree ha hx, inv_loopTest hagree' (by simp) ?_⟩
      have hpos : a.result.toNat ≠ 0 := fun h => hx (UInt64.toNat_inj.mp h)
      rw [List.length_append, List.length_singleton, hadd]
      omega
  | returned => cases hreq

/-- A result that `fwrite` can have. -/
lemma le_request_of_call {r : Except Fault (State × List Obs)}
    (h : call content length s a = some r) :
    ∃ req, request length s = some req ∧ a.result ≤ req := by
  cases s with
  | first => exact ⟨_, rfl, (Option.ite_none_right_eq_some.mp h).1⟩
  | retry v => exact ⟨_, rfl, (Option.ite_none_right_eq_some.mp h).1⟩
  | returned v => cases h

lemma Inv.of_eq_some (hlen : length.toNat ≤ content.length) (h : Inv content length es obs s)
    {r : Except Fault (State × List Obs)} (hcall : call content length s a = some r) :
    ∃ t o, r = .ok (t, o) ∧ Inv content length (es ++ [a]) (obs ++ o) t := by
  obtain ⟨req, hreq, ha⟩ := le_request_of_call hcall
  obtain ⟨t, o, heq, ht⟩ := h.of_call hlen hreq ha
  rw [hcall] at heq
  cases heq
  exact ⟨t, o, rfl, ht⟩

/-- A replay ends in no fault, and keeps the invariant. -/
lemma inv_of_exec (hlen : length.toNat ≤ content.length) {r : Except Fault State}
    (h : (system content length).exec (.ok .first) es = some (r, obs)) :
    ∃ s, r = .ok s ∧ Inv content length es obs s := by
  refine System.exec_invariant (P := fun es obs r => ∃ s, r = .ok s ∧ Inv content length es obs s)
    h ⟨_, rfl, .first⟩ ?_
  rintro es obs _ a r o ⟨s, rfl, hs⟩ he
  exact System.faulting_step_safe (P := fun t o => Inv content length (es ++ [a]) (obs ++ o) t) he
    fun _ => hs.of_eq_some hlen

/-! ### The results -/

/-- Each call has accepted as many bytes as its result says, and `m` is the number of them all. -/
structure Counts (es : List Answer) (obs : List Obs) (m : ℕ) : Prop where
  lengths : (chunks obs).map List.length = results es
  sum : m = (results es).sum

lemma Counts.append {m m' : ℕ} {o : List Obs} (h : Counts es obs m)
    (ho : (chunks o).map List.length = [a.result.toNat]) (hm : m' = m + a.result.toNat) :
    Counts (es ++ [a]) (obs ++ o) m' where
  lengths := by rw [chunks_append, List.map_append, h.lengths, ho, results_append]
  sum := by rw [hm, h.sum, results_append, List.sum_append, List.sum_singleton]

lemma Counts.call {t : State} {o : List Obs} (h : Counts es obs s.n)
    (hlen : length.toNat ≤ content.length) (hs : Inv content length es obs s)
    (hcall : call content length s a = some (.ok (t, o))) : Counts (es ++ [a]) (obs ++ o) t.n := by
  obtain ⟨req, hreq, ha⟩ := le_request_of_call hcall
  have hle := UInt64.le_iff_toNat_le.mp ha
  cases hs with
  | first =>
    cases hreq
    rw [call_first hlen ha] at hcall
    cases hcall
    have htake : (content.take a.result.toNat).length = a.result.toNat :=
      List.length_take_of_le (Nat.le_trans hle hlen)
    refine h.append ?_ ?_
    · rw [lengths_accepted, htake]
    · rw [n_loopTest]
      exact (Nat.zero_add _).symm
  | @retry _ _ v hagree =>
    cases hreq
    have hsum := hagree.remain_add
    by_cases hx : a.result = 0
    · obtain ⟨o', hcall', -, ho⟩ := call_retry_zero hlen hagree hx
      rw [hcall] at hcall'
      cases hcall'
      exact h.append (by rw [ho, hx]; rfl) (by rw [hx]; rfl)
    · rw [call_retry hlen hagree ha hx] at hcall
      cases hcall
      obtain ⟨hadd, -⟩ := hagree.add ha (o := [.accepted _]) (List.append_nil _)
      have htake : ((content.drop v.n.toNat).take a.result.toNat).length = a.result.toNat := by
        apply List.length_take_of_le
        rw [List.length_drop]
        omega
      refine h.append ?_ ?_
      · rw [lengths_accepted, htake]
      · rw [n_loopTest, hadd]
        rfl
  | returned => cases hreq

lemma counts_of_exec (hlen : length.toNat ≤ content.length) {r : Except Fault State}
    (h : (system content length).exec (.ok .first) es = some (r, obs)) :
    ∃ s, r = .ok s ∧ Counts es obs s.n := by
  obtain ⟨s, rfl, -, hcounts⟩ : ∃ s, r = .ok s ∧ Inv content length es obs s ∧
      Counts es obs s.n := by
    refine System.exec_invariant (P := fun es obs r => ∃ s, r = .ok s ∧
      Inv content length es obs s ∧ Counts es obs s.n) h ⟨_, rfl, .first, rfl, rfl⟩ ?_
    rintro es obs _ a r o ⟨s, rfl, hs, hcounts⟩ he
    refine System.faulting_step_safe (P := fun t o => Inv content length (es ++ [a]) (obs ++ o) t ∧
      Counts (es ++ [a]) (obs ++ o) t.n) he fun _ hcall => ?_
    obtain ⟨t, o, rfl, ht⟩ := hs.of_eq_some hlen hcall
    exact ⟨t, o, rfl, ht, hcounts.call hlen hs hcall⟩
  exact ⟨s, rfl, hcounts⟩

lemma Inv.length_le (h : Inv content length es obs s) : es.length ≤ length.toNat + 1 := by
  cases h with
  | first => exact Nat.zero_le _
  | retry hagree hes hcalls hrest =>
    have hsum := hagree.remain_add
    omega
  | returned hagree hcalls => exact hcalls

lemma Inv.accepted (h : Inv content length es obs s) : accepted obs = content.take s.n := by
  cases h with
  | first => rfl
  | retry hagree | returned hagree => exact hagree.accepted

lemma Inv.n_le (h : Inv content length es obs s) : s.n ≤ length.toNat := by
  cases h with
  | first => exact Nat.zero_le _
  | retry hagree | returned hagree => exact UInt64.le_iff_toNat_le.mp hagree.le_length

/-- The locals, behind the first call. -/
def State.locals : State → Option Locals
  | .first => none
  | .retry v | .returned v => some v

lemma Inv.agree (h : Inv content length es obs s) (hv : s.locals = some v) :
    Agree content length obs v := by
  cases h with
  | first => cases hv
  | retry hagree | returned hagree =>
    cases hv
    exact hagree

/-- No result is greater than what its call asks for. -/
def Legal (content : List Byte) (length : UInt64) (results : ℕ → Answer) : Prop :=
  ∀ k s obs req, (system content length).exec (.ok .first) ((List.range k).map results) =
    some (.ok s, obs) → request length s = some req → (results k).result ≤ req

/-- `append` returns, whatever the results are. -/
lemma exists_returned (hlen : length.toNat ≤ content.length) {results : ℕ → Answer}
    (hlegal : Legal content length results) : ∃ k ≤ length.toNat + 1, ∃ v obs,
      (system content length).exec (.ok .first) ((List.range k).map results) =
        some (.ok (.returned v), obs) := by
  have hbound : ∀ es r, (system content length).exec (.ok .first) es = some r →
      es.length ≤ length.toNat + 1 := by
    intro es r hexec
    obtain ⟨s, -, hs⟩ := inv_of_exec hlen hexec
    exact hs.length_le
  have hnext : ∀ k r obs, (system content length).exec (.ok .first) ((List.range k).map results) =
      some (r, obs) → ¬(∃ v, r = .ok (.returned v)) →
        ∃ t o, (system content length).step r (results k) = some (t, o) := by
    intro k r obs hexec hgoes
    obtain ⟨s, rfl, hs⟩ := inv_of_exec hlen hexec
    obtain ⟨req, hreq⟩ : ∃ req, request length s = some req := by
      cases s with
      | first | retry => exact ⟨_, rfl⟩
      | returned v => exact absurd ⟨v, rfl⟩ hgoes
    obtain ⟨t, o, hcall, -⟩ := hs.of_call hlen hreq (hlegal k s obs req hexec hreq)
    exact ⟨.ok t, o, System.faulting_step_ok.mpr hcall⟩
  obtain ⟨k, hk, _, obs, hexec, v, rfl⟩ := System.exists_stop hbound hnext
  exact ⟨k, hk, v, obs, hexec⟩

/-- Whatever `fwrite` accepts in each call, `append` writes a prefix of the content, call by call as
many bytes as the results say, and gives up only on a call of the loop that accepts nothing. -/
theorem append_writes (hlen : length.toNat ≤ content.length) :
    (∀ es r obs, (system content length).exec (.ok .first) es = some (r, obs) → ∃ s, r = .ok s ∧
      (chunks obs).map List.length = results es ∧ s.n = (results es).sum ∧
      accepted obs = content.take s.n ∧ s.n ≤ length.toNat ∧
      (∀ v, s.locals = some v →
        v.remain = length - v.n ∧ v.remain.toNat + v.n.toNat = length.toNat) ∧
      ∀ v, s = .returned v → v.n = length ∨ ∃ pre a, pre ≠ [] ∧ es = pre ++ [a] ∧ a.result = 0) ∧
    ∀ answers, Legal content length answers → ∃ k ≤ length.toNat + 1, ∃ v obs,
      (system content length).exec (.ok .first) ((List.range k).map answers) =
        some (.ok (.returned v), obs) := by
  refine ⟨fun es r obs hexec => ?_, fun answers => exists_returned hlen⟩
  obtain ⟨s, rfl, hs⟩ := inv_of_exec hlen hexec
  obtain ⟨_, heq, hcounts⟩ := counts_of_exec hlen hexec
  cases heq
  refine ⟨s, rfl, hcounts.lengths, hcounts.sum, hs.accepted, hs.n_le, fun v hv => ?_, ?_⟩
  · have hagree := hs.agree hv
    exact ⟨hagree.remain, hagree.remain_add⟩
  · rintro v rfl
    cases hs with
    | returned _ _ hend => exact hend

/-- The disk is full behind the second byte, which the first call has left over. -/
theorem append_writes_full : ∃ s obs, (system (literal "log") 3).exec (.ok .first)
    [⟨1, false⟩, ⟨1, false⟩, ⟨0, true⟩] = some (.ok s, obs) ∧ s = .returned ⟨2, 1⟩ ∧
      obs = [.accepted (literal "l"), .accepted (literal "o"), .accepted [],
        .message (literal "AppendFile::append() failed!\n")] ∧
      (chunks obs).map List.length = [1, 1, 0] ∧ accepted obs = (literal "log").take 2 := by
  obtain ⟨s, obs, hexec, hs, hobs⟩ : ∃ s obs, (system (literal "log") 3).exec (.ok .first)
      [⟨1, false⟩, ⟨1, false⟩, ⟨0, true⟩] = some (.ok s, obs) ∧ s = .returned ⟨2, 1⟩ ∧
        obs = [.accepted (literal "l"), .accepted (literal "o"), .accepted [],
          .message (literal "AppendFile::append() failed!\n")] := ⟨_, _, rfl, rfl, rfl⟩
  obtain ⟨s', heq, hlengths, hn, haccepted, -⟩ := (append_writes (by decide)).1 _ _ _ hexec
  cases heq
  rw [hn] at haccepted
  exact ⟨s, obs, hexec, hs, hobs, hlengths, haccepted⟩

/-! ### `File.append` counts the same -/

/-- A state of `File.append`, which counts in `ℕ`, and of `append`, in front of a call. -/
inductive Front (a : Appending) : State → Prop
  | first (hretry : a.retry = false) (hn : a.n = 0) : Front a .first
  | retry (v : Locals) (hretry : a.retry = true) (hn : v.n.toNat = a.n) : Front a (.retry v)

/-- `content.size()` -/
def size (content : List Byte) : UInt64 := UInt64.ofNat content.length

lemma toNat_size (h : content.length < 2 ^ 64) : (size content).toNat = content.length :=
  UInt64.toNat_ofNat_of_lt' h

/-- What a call of `unlockWrite` leaves, for the bytes it writes. -/
structure Writes (w w' : Appending) (bytes : List Byte) : Prop where
  id : w'.file.id = w.file.id
  n : w'.n = w.n + bytes.length
  retry : w'.retry = true
  received : received w.file.id w'.shown = received w.file.id w.shown ++ bytes

lemma writes_of_unlockWrite {w w' : Appending} {r : Fwrite}
    (h : LogFile.unlockWrite content w r = .ok w') :
    Writes w w' ((content.drop w.n).take r.accepts) := by
  cases hfp : w.file.fp with
  | none =>
    simp only [LogFile.unlockWrite, hfp] at h
    cases h
  | some fp =>
    simp only [LogFile.unlockWrite, hfp, deref_some, ok_bind, Except.ok.injEq] at h
    subst h
    exact ⟨rfl, rfl, rfl, by simp [received]⟩

lemma eq_of_turn {w : Appending} {r : Fwrite} {u : Turn Appending} (h : turn content w r = .ok u) :
    ∃ w', Writes w w' ((content.drop w.n).take r.accepts) ∧
      u = if content.length - w'.n = 0 ∨ w.retry = true ∧ w'.n = w.n then .leave w'
        else .again w' := by
  cases hw : LogFile.unlockWrite content w r with
  | error e =>
    simp only [turn, hw] at h
    cases h
  | ok w' =>
    simp only [turn, hw, ok_bind, Except.ok.injEq] at h
    exact ⟨w', writes_of_unlockWrite hw, h.symm⟩

lemma loopTest_eq {m : ℕ} (h : v.remain.toNat + v.n.toNat = m) :
    loopTest v = if m - v.n.toNat = 0 then .returned v else .retry v := by
  have hrest : 0 < v.remain ↔ ¬m - v.n.toNat = 0 := by
    rw [UInt64.lt_iff_toNat_lt, UInt64.toNat_zero]
    omega
  simp only [loopTest, hrest, ite_not]

/-- A turn of `File.append` and a call lead to the same. -/
inductive Same : Turn Appending → State → Prop
  | again {w : Appending} {t : State} (h : Front w t) : Same (.again w) t
  | leave {w : Appending} {v : Locals} (hn : v.n.toNat = w.n) : Same (.leave w) (.returned v)

lemma same_loopTest {w : Appending} (hretry : w.retry = true) (hn : v.n.toNat = w.n)
    (hsum : v.remain.toNat + v.n.toNat = content.length) :
    Same (if content.length - w.n = 0 then .leave w else .again w) (loopTest v) := by
  rw [loopTest_eq hsum, hn]
  split_ifs
  · exact .leave hn
  · exact .again (.retry v hretry hn)

/-- A turn of `File.append` is a call with the number of the bytes that it writes. -/
lemma call_of_turn (hlen : content.length < 2 ^ 64) {w : Appending} {r : Fwrite}
    {u : Turn Appending} (hs : Inv content (size content) es obs s) (hfront : Front w s)
    (h : turn content w r = .ok u) : ∃ a t o, call content (size content) s a = some (.ok (t, o)) ∧
      Same u t ∧ u.state.file.id = w.file.id ∧
        received w.file.id u.state.shown = received w.file.id w.shown ++ accepted o := by
  have hsize := toNat_size hlen
  have hfits : (size content).toNat ≤ content.length := Nat.le_of_eq hsize
  obtain ⟨w', hw, rfl⟩ := eq_of_turn h
  have hstate : (if content.length - w'.n = 0 ∨ w.retry = true ∧ w'.n = w.n then
      Turn.leave w' else .again w').state = w' := by
    split_ifs <;> rfl
  rw [hstate]
  generalize hbytes : (content.drop w.n).take r.accepts = bytes at hw
  have hn := hw.n
  have hle : bytes.length ≤ content.length - w.n := by
    rw [← hbytes, List.length_take, List.length_drop]
    exact Nat.min_le_right _ _
  have htake : (content.drop w.n).take bytes.length = bytes := by
    rw [← hbytes, List.length_take, ← List.take_eq_take_min]
  obtain ⟨x, hx⟩ : ∃ x : UInt64, x.toNat = bytes.length := by
    refine ⟨UInt64.ofNat bytes.length, UInt64.toNat_ofNat_of_lt' ?_⟩
    exact Nat.lt_of_le_of_lt hle (Nat.lt_of_le_of_lt (Nat.sub_le ..) hlen)
  cases hfront with
  | first hretry hzero =>
    have hle' : x ≤ size content := by
      rw [UInt64.le_iff_toNat_le]
      omega
    have hagree : Agree content (size content) _ _ := agree_first hle'
    have hsum := hagree.remain_add
    rw [hsize] at hsum
    refine ⟨⟨x, false⟩, _, _, call_first hfits hle', ?_, hw.id, ?_⟩
    · simp only [hretry, Bool.false_eq_true, false_and, or_false]
      exact same_loopTest hw.retry (by simp [hx, hn, hzero]) hsum
    · rw [hzero, List.drop_zero, ← hx] at htake
      rw [hw.received, ← htake]
      exact congrArg _ (List.append_nil _).symm
  | retry v hretry hvn =>
    have hagree := hs.agree rfl
    have hrest := hagree.remain_add
    rw [hsize, hvn] at hrest
    by_cases hzero : x = 0
    · have hnil : bytes = [] := by
        rw [hzero, UInt64.toNat_zero] at hx
        exact List.length_eq_zero_iff.mp hx.symm
      have hsame : w'.n = w.n := by rw [hn, hnil, List.length_nil, Nat.add_zero]
      obtain ⟨o, hcall, ho, -⟩ := call_retry_zero (a := ⟨x, false⟩) hfits hagree hzero
      refine ⟨⟨x, false⟩, _, o, hcall, ?_, hw.id, ?_⟩
      · rw [if_pos (.inr ⟨hretry, hsame⟩)]
        exact .leave (hvn.trans hsame.symm)
      · rw [hw.received, hnil, ho]
    · have hle' : x ≤ v.remain := by
        rw [UInt64.le_iff_toNat_le]
        omega
      have hpos : x.toNat ≠ 0 := fun h => hzero (UInt64.toNat_inj.mp h)
      have hgrows : w'.n ≠ w.n := by omega
      rw [← hvn, ← hx] at htake
      obtain ⟨hadd, hagree'⟩ := hagree.add hle' (o := [.accepted bytes])
        (by rw [htake]; exact List.append_nil _)
      have hsum := hagree'.remain_add
      rw [hsize] at hsum
      refine ⟨⟨x, false⟩, _, _, call_retry hfits hagree hle' hzero, ?_, hw.id, ?_⟩
      · simp only [hgrows, and_false, or_false]
        exact same_loopTest hw.retry (by rw [hadd, hvn, hn, hx]) hsum
      · rw [hw.received, htake]
        exact congrArg _ (List.append_nil _).symm

/-- The calls so far have brought `append` to `t`, with the bytes that `w` has shown. -/
def Reaches (content : List Byte) (id : ℕ) (w : Appending) (t : State) : Prop :=
  w.file.id = id ∧ ∃ es obs, received id w.shown = accepted obs ∧
    (system content (size content)).exec (.ok .first) es = some (.ok t, obs)

lemma Reaches.turn (hlen : content.length < 2 ^ 64) {id : ℕ} {w : Appending} {r : Fwrite}
    {u : Turn Appending} (hw : Reaches content id w s) (hfront : Front w s)
    (h : turn content w r = .ok u) : ∃ t, Reaches content id u.state t ∧ Same u t := by
  obtain ⟨rfl, es, obs, hshown, hexec⟩ := hw
  obtain ⟨_, heq, hs⟩ := inv_of_exec (Nat.le_of_eq (toNat_size hlen)) hexec
  cases heq
  obtain ⟨a, t, o, hcall, hsame, hid, hreceived⟩ := call_of_turn hlen hs hfront h
  refine ⟨t, ⟨hid, es ++ [a], obs ++ o, ?_, ?_⟩, hsame⟩
  · rw [hreceived, hshown, accepted_append]
  · rw [System.exec_append]
    exact ⟨_, obs, o, hexec, System.exec_singleton.mpr (System.faulting_step_ok.mpr hcall), rfl⟩

/-- `File.append` makes calls of `append`, and gives the same bytes to the file. -/
theorem append_refines {file : File} {disk : Disk} {writes : List Fwrite}
    {p : Progress Appending Fwrite} (hlen : content.length < 2 ^ 64)
    (h : file.append disk content writes = .ok p) : ∃ t, Reaches content file.id p.state t ∧
      t.n = p.state.n ∧ ((∃ v, t = .returned v) ↔ ∃ w rest, p = .left w rest) := by
  have hinside : ∀ {is w}, (fileLoop content).run ⟨disk, file, 0, false, []⟩ is = .ok (.inside w) →
      ∃ t, Reaches content file.id w t ∧ Front w t := by
    intro is w hrun
    refine InputLoop.run_inside_invariant (P := fun w => ∃ t, Reaches content file.id w t ∧
      Front w t) hrun ⟨.first, ⟨rfl, [], [], rfl, rfl⟩, .first rfl rfl⟩ ?_
    rintro w r u ⟨s, hw, hfront⟩ hturn
    obtain ⟨t, ht, hsame⟩ := hw.turn hlen hfront hturn
    cases hsame with
    | again hfront' => exact ⟨t, ht, hfront'⟩
  cases p with
  | inside w =>
    obtain ⟨t, ht, hfront⟩ := hinside h
    cases hfront with
    | first _ hn => exact ⟨_, ht, hn.symm, by simp⟩
    | retry v _ hn => exact ⟨_, ht, hn, by simp⟩
  | left w rest =>
    obtain ⟨pre, r, u, -, hpre, -, hturn⟩ := InputLoop.run_left h
    obtain ⟨s, hu, hfront⟩ := hinside hpre
    obtain ⟨t, ht, hsame⟩ := hu.turn hlen hfront hturn
    cases hsame with
    | leave hn => exact ⟨_, ht, hn, by simp⟩

end ClwServer.LogFile.Append
