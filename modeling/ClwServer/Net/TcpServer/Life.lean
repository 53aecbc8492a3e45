import Mathlib.Algebra.BigOperators.Fin
import Mathlib.Algebra.Order.BigOperators.Group.Finset
import ClwServer.Net.TcpServer.Confinement

/-!
# The life of a connection

What a connection is supposed to go through is a small automaton: it is created, registered once,
removed from the map together with its own entry, and taken out of the interest list; behind that
a callback may only ask for its removal again, and finds no entry. Every run of the server follows
it, for each of its connections, and the stage of a connection says where it stands in the map, in
the interest list and in the queues.
-/

namespace ClwServer.TcpServer

variable {n : ℕ} {s t : State n} {l i : Fin (n + 1)} {c d : ConnId} {fd : ℕ}
  {obs o : List Obs}

/-! ### The automaton -/

inductive Stage
  | absent
  /-- In the map, and `connectEstablished` is to come. -/
  | created
  /-- In the map and in the interest list. -/
  | established
  /-- Out of the map, and `connectDestroyed` is to come. -/
  | erased
  /-- Out of both. -/
  | disconnected
  /-- The same, with one more `connectDestroyed` to come. -/
  | erasedAgain
  deriving DecidableEq

/-- The connection an observation is about. -/
def Obs.conn : Obs → ConnId
  | .created c | .removed c _ | .established c | .disconnected c => c

/-- What is shown of a connection brings it to the next stage. -/
def Stage.advance : Stage → Obs → Option Stage
  | .absent, .created _ => some .created
  | .created, .established _ => some .established
  | .established, .removed c (some e) => if e = c then some .erased else none
  | .erased, .disconnected _ => some .disconnected
  | .disconnected, .removed _ none => some .erasedAgain
  | .erasedAgain, .disconnected _ => some .disconnected
  | _, _ => none

def Stage.next (c : ConnId) (st : Stage) (x : Obs) : Option Stage :=
  if x.conn = c then st.advance x else some st

/-- Where `c` has come to, if the observations follow the automaton. -/
def life (c : ConnId) (obs : List Obs) : Option Stage := obs.foldlM (Stage.next c) .absent

lemma life_append (c : ConnId) (obs o : List Obs) :
    life c (obs ++ o) = (life c obs).bind fun st => o.foldlM (Stage.next c) st :=
  List.foldlM_append ..

lemma life_other {st : Stage} (h : life c obs = some st) (ho : ∀ x ∈ o, x.conn ≠ c) :
    life c (obs ++ o) = some st := by
  rw [life_append, h, Option.bind_some]
  induction o with
  | nil => rfl
  | cons x o ih =>
    rw [List.foldlM_cons, Stage.next, if_neg (ho x (List.mem_cons_self ..))]
    exact ih fun y hy => ho y (List.mem_cons_of_mem _ hy)

lemma life_advance {st st' : Stage} {x : Obs} (h : life c obs = some st) (hc : x.conn = c)
    (hx : st.advance x = some st') : life c (obs ++ [x]) = some st' := by
  rw [life_append, h, Option.bind_some, List.foldlM_cons, Stage.next, if_pos hc, hx]
  rfl

/-! ### Waiting for `connectEstablished` -/

/-- How often the loop is about to call `connectEstablished` of `c`, or to hand it on. -/
def Loop.awaits (L : Loop) (c : ConnId) : ℕ :=
  (if L.pc = .inserted c then 1 else 0) +
    (L.pendingFunctors ++ L.todo).count (.connectEstablished c)

def awaiting (s : State n) (c : ConnId) : ℕ := ∑ l, (s.loops l).awaits c

lemma awaiting_setLoop {L : Loop} (l : Fin (n + 1)) (c : ConnId) :
    awaiting (setLoop s l L) c + (s.loops l).awaits c = awaiting s c + L.awaits c := by
  have hsplit {t : State n} : awaiting t c =
      (t.loops l).awaits c + ∑ i ∈ Finset.univ.erase l, (t.loops i).awaits c :=
    (Finset.add_sum_erase _ _ (Finset.mem_univ l)).symm
  have hrest : ∑ i ∈ Finset.univ.erase l, ((setLoop s l L).loops i).awaits c =
      ∑ i ∈ Finset.univ.erase l, (s.loops i).awaits c := by
    refine Finset.sum_congr rfl fun i hi => ?_
    simp only [setLoop, Function.update_of_ne (Finset.ne_of_mem_erase hi)]
  rw [hsplit (t := setLoop s l L), hsplit (t := s), hrest]
  simp only [setLoop, Function.update_self]
  omega

lemma awaiting_of_awaits {L : Loop} (h : L.awaits c = (s.loops l).awaits c) :
    awaiting (setLoop s l L) c = awaiting s c := by
  have hsum := awaiting_setLoop (s := s) (L := L) l c
  omega

lemma awaits_pc {L : Loop} {pc : Pc} (h : pc = .inserted c ↔ L.pc = .inserted c) :
    ({ L with pc := pc } : Loop).awaits c = L.awaits c := by
  simp only [Loop.awaits, h]

lemma awaiting_setPc {pc : Pc} (h : pc = .inserted c ↔ (s.loops l).pc = .inserted c) :
    awaiting (setPc s l pc) c = awaiting s c :=
  awaiting_of_awaits (awaits_pc h)

lemma awaiting_runTask (task : Task) : awaiting (runTask s task).1 c = awaiting s c := by
  cases task <;> rfl

lemma awaiting_queueInLoop (l : Fin (n + 1)) (task : Task) :
    awaiting (queueInLoop s l task) c =
      awaiting s c + if task = .connectEstablished c then 1 else 0 := by
  have hsum : awaiting (queueInLoop s l task) c + (s.loops l).awaits c =
      awaiting s c + Loop.awaits _ c := awaiting_setLoop l c
  simp only [Loop.awaits, List.count_append, List.count_singleton, beq_iff_eq] at hsum
  omega

/-- A thread that goes on behind `runInLoop` in `newConnection`. -/
lemma awaiting_leave {pc : Pc} (hpc : (s.loops l).pc = .inserted c) (hne : pc ≠ .inserted c) :
    awaiting (setPc s l pc) c + 1 = awaiting s c := by
  have hsum : awaiting (setPc s l pc) c + (s.loops l).awaits c =
      awaiting s c + Loop.awaits _ c := awaiting_setLoop l c
  simp only [Loop.awaits, if_pos hpc, if_neg hne] at hsum
  omega

/-- A batch calls the first of its functors. -/
lemma awaiting_run {L : Loop} (hpc : L.pc = (s.loops l).pc)
    (hpending : L.pendingFunctors = (s.loops l).pendingFunctors)
    (htodo : (s.loops l).todo = .connectEstablished c :: L.todo) :
    awaiting (setLoop s l L) c + 1 = awaiting s c := by
  have hsum := awaiting_setLoop (s := s) (L := L) l c
  simp only [Loop.awaits, hpc, hpending, htodo, List.count_append, List.count_cons_self] at hsum
  omega

lemma awaits_le (l : Fin (n + 1)) : (s.loops l).awaits c ≤ awaiting s c :=
  Finset.single_le_sum (f := fun l => (s.loops l).awaits c) (fun _ _ => Nat.zero_le _)
    (Finset.mem_univ l)

lemma held_of_awaiting (h : awaiting s c ≠ 0) : Held s c := by
  obtain ⟨l, -, hl⟩ := Finset.exists_ne_zero_of_sum_ne_zero h
  by_cases hpc : (s.loops l).pc = .inserted c
  · exact held_of_ref (l := l) (by rw [hpc]; rfl)
  · rw [Loop.awaits, if_neg hpc, Nat.zero_add, ← Nat.pos_iff_ne_zero, List.count_pos_iff,
      List.mem_append] at hl
    have hmem : .connectEstablished c ∈ (s.loops l).tasks := by
      simp only [Loop.tasks, List.mem_append]
      tauto
    exact held_of_task hmem

/-! ### Where a connection stands -/

/-- Where the connection `k` with the name `c` stands at a stage. -/
structure At (s : State n) (c : ConnId) (k : Conn n) (st : Stage) : Prop where
  awaiting : awaiting s c = if st = .created then 1 else 0
  registered : k.registered = true ↔ st = .established ∨ st = .erased
  mapped : s.connectionMap.lookup k.fd = some c ↔ st = .created ∨ st = .established
  erased : (s.loops k.loop).pc = .erased c ↔ st = .erased ∨ st = .erasedAgain
  handled : ∀ l, (s.loops l).pc.handled = some c → st ≠ .created

inductive Holds (s : State n) (c : ConnId) : Stage → Prop
  | absent (hnone : s.conns c = none) : Holds s c .absent
  | present {st : Stage} (k : Conn n) (hst : st ≠ .absent) (hk : s.conns c = some k)
      (hat : At s c k st) : Holds s c st

/-- A step that leaves `c` where it stands. -/
structure Same (s t : State n) (c : ConnId) : Prop where
  conn : (t.conns c).map (fun k => (k.fd, k.loop, k.registered)) =
    (s.conns c).map fun k => (k.fd, k.loop, k.registered)
  awaiting : awaiting t c = awaiting s c
  mapped : ∀ fd, t.connectionMap.lookup fd = some c ↔ s.connectionMap.lookup fd = some c
  erased : ∀ l, (t.loops l).pc = .erased c ↔ (s.loops l).pc = .erased c

lemma Same.trans {u : State n} (h : Same s t c) (h' : Same t u c) : Same s u c where
  conn := h'.conn.trans h.conn
  awaiting := h'.awaiting.trans h.awaiting
  mapped := fun fd => (h'.mapped fd).trans (h.mapped fd)
  erased := fun l => (h'.erased l).trans (h.erased l)

/-- Only a connection in the interest list is handled anew. -/
def Handles (s t : State n) (c : ConnId) : Prop :=
  ∀ l, (t.loops l).pc.handled = some c → (s.loops l).pc.handled = some c ∨
    ∃ k, s.conns c = some k ∧ k.loop = l ∧ k.registered = true

lemma Holds.same {st : Stage} (h : Holds s c st) (hsame : Same s t c) (hnew : Handles s t c) :
    Holds t c st := by
  have hconn := hsame.conn
  cases h with
  | absent hnone =>
    rw [hnone] at hconn
    exact .absent (Option.map_eq_none_iff.mp hconn)
  | present k hst hk hat =>
    rw [hk] at hconn
    obtain ⟨k', hk', heq⟩ := Option.map_eq_some_iff.mp hconn
    obtain ⟨hfd, hloop, hreg⟩ : k'.fd = k.fd ∧ k'.loop = k.loop ∧
      k'.registered = k.registered := by simpa using heq
    refine .present k' hst hk' ⟨?_, ?_, ?_, ?_, ?_⟩
    · rw [hsame.awaiting, hat.awaiting]
    · rw [hreg, hat.registered]
    · rw [hfd, hsame.mapped, hat.mapped]
    · rw [hloop, hsame.erased, hat.erased]
    · intro l hl
      rcases hnew l hl with hold | ⟨k'', hk'', -, hreg'⟩
      · exact hat.handled l hold
      · obtain rfl : k = k'' := Option.some.inj (hk.symm.trans hk'')
        rintro rfl
        simpa using hat.registered.mp hreg'

/-- A thread that goes from nowhere in `removeConnection` to nowhere there. -/
lemma erased_setLoop {L : Loop} (h : (s.loops l).pc = .erased c ↔ L.pc = .erased c)
    (i : Fin (n + 1)) :
    ((setLoop s l L).loops i).pc = .erased c ↔ (s.loops i).pc = .erased c := by
  rw [pc_setLoop]
  split
  · subst i
    exact h.symm
  · exact Iff.rfl

lemma same_setLoop {L : Loop} (hawaits : L.awaits c = (s.loops l).awaits c)
    (herased : (s.loops l).pc = .erased c ↔ L.pc = .erased c) : Same s (setLoop s l L) c where
  conn := rfl
  awaiting := awaiting_of_awaits hawaits
  mapped := fun _ => Iff.rfl
  erased := erased_setLoop herased

lemma same_setPc {pc : Pc} (hinserted : (s.loops l).pc = .inserted c ↔ pc = .inserted c)
    (herased : (s.loops l).pc = .erased c ↔ pc = .erased c) : Same s (setPc s l pc) c :=
  same_setLoop (awaits_pc hinserted.symm) herased

lemma same_updateConn {f : Conn n → Conn n}
    (hf : d = c → ∀ k, ((f k).fd, (f k).loop, (f k).registered) = (k.fd, k.loop, k.registered)) :
    Same s (updateConn s d f) c where
  conn := by
    by_cases hdc : d = c
    · subst hdc
      simp only [updateConn, Function.update_self, Option.map_map, Function.comp_def, hf rfl]
    · simp only [updateConn, Function.update_of_ne (Ne.symm hdc)]
  awaiting := rfl
  mapped := fun _ => Iff.rfl
  erased := fun _ => Iff.rfl

lemma same_runTask {task : Task} (h : task.conn ≠ c) : Same s (runTask s task).1 c := by
  cases task <;> exact same_updateConn fun heq => absurd heq h

/-! ### The next stage -/

/-- `newConnection` makes `c`. -/
lemma Holds.create {k : Conn n} (hi : Inv s) (hconf : Confined s) (hc : s.conns c = none)
    (hpc : (s.loops 0).pc ≠ .inserted c) (hreg : k.registered = false) :
    Holds { setPc s 0 (.inserted c) with
      conns := Function.update s.conns c (some k)
      connectionMap := s.connectionMap.insert k.fd c } c .created := by
  have hzero : TcpServer.awaiting s c = 0 := by
    by_contra hne
    obtain ⟨fd, k', hk', -⟩ := hi.held c (held_of_awaiting hne)
    rw [hc] at hk'
    cases hk'
  have hunhandled (l : Fin (n + 1)) :
      ((setPc s 0 (.inserted c)).loops l).pc.handled ≠ some c := by
    intro hl
    rcases handled_setPc hl with hold | ⟨-, hnew⟩
    · have hloop := hconf.handled l c hold
      rw [loopOf, hc] at hloop
      cases hloop
    · cases hnew
  refine .present k (by simp) (by simp) ⟨?_, by simp [hreg], by simp, ?_, ?_⟩
  · have hsum : TcpServer.awaiting (setPc s 0 (.inserted c)) c + (s.loops 0).awaits c =
        TcpServer.awaiting s c + Loop.awaits _ c := awaiting_setLoop 0 c
    simp only [Loop.awaits, if_neg hpc, if_true, hzero] at hsum
    rw [if_pos rfl]
    show TcpServer.awaiting (setPc s 0 (.inserted c)) c = 1
    omega
  · simp only [reduceCtorEq, or_self, iff_false]
    intro herased
    have hloop : ((setPc s 0 (.inserted c)).loops k.loop).pc = .erased c := herased
    exact hunhandled k.loop (by rw [hloop]; rfl)
  · intro l hl
    exact absurd hl (hunhandled l)

/-- `connectEstablished` of `c` runs, and its functor is out of the way. -/
lemma Holds.establish {st : Stage} {u : State n} (h : Holds s c st) (hi : Inv s)
    (hconns : u.conns = s.conns) (hmap : u.connectionMap = s.connectionMap)
    (herased : ∀ l, (u.loops l).pc = .erased c ↔ (s.loops l).pc = .erased c)
    (hawaiting : awaiting u c + 1 = awaiting s c) :
    st = .created ∧ Holds (runTask u (.connectEstablished c)).1 c .established := by
  cases h with
  | absent hnone =>
    obtain ⟨fd, k, hk, -⟩ := hi.held c (held_of_awaiting (by omega))
    rw [hnone] at hk
    cases hk
  | present k hst hk hat =>
    have hcreated : st = .created := by
      by_contra hne
      have hzero := hat.awaiting
      rw [if_neg hne] at hzero
      omega
    subst hcreated
    refine ⟨rfl, .present { k with registered := true } (by simp) ?_ ⟨?_, ?_, ?_, ?_, ?_⟩⟩
    · simp [runTask, updateConn, hconns, hk]
    · have hone := hat.awaiting
      rw [if_pos rfl] at hone
      rw [awaiting_runTask, if_neg (by simp)]
      omega
    · simp
    · have hmapped := hat.mapped
      simpa [runTask, updateConn, hmap] using hmapped
    · rw [pc_runTask, herased]
      simpa using hat.erased
    · simp

/-- The thread that handles a connection is the one of its loop. -/
lemma Confined.loop_eq {k : Conn n} (hconf : Confined s) (hk : s.conns c = some k)
    (hpc : (s.loops l).pc.handled = some c) : k.loop = l := by
  have hloop := hconf.handled l c hpc
  rw [loopOf_eq hk] at hloop
  exact Fin.ext (Option.some.inj hloop)

/-- What the key of a connection holds while somebody points to it is its own entry. -/
lemma Inv.lookup_eq {k : Conn n} (hi : Inv s) (hk : s.conns c = some k) (hheld : Held s c)
    (hlookup : s.connectionMap.lookup k.fd = some d) : d = c := by
  obtain ⟨fd, k', hk', halive, rfl⟩ := hi.held c hheld
  obtain rfl : k = k' := Option.some.inj (hk.symm.trans hk')
  exact hi.unique d c k.fd (hi.entry k.fd d hlookup) ⟨k, hk, halive, rfl⟩

/-- `removeConnection` of `c` erases its entry, or finds none. -/
lemma Holds.erase {st : Stage} {k : Conn n} (h : Holds s c st) (hi : Inv s)
    (hconf : Confined s) (hk : s.conns c = some k) (hpc : (s.loops l).pc = .closing c) :
    ∃ st', st.advance (.removed c (s.connectionMap.lookup k.fd)) = some st' ∧
      Holds { setPc s l (.erased c) with
        connectionMap := s.connectionMap.erase k.fd } c st' := by
  have hloop := hconf.loop_eq hk (l := l) (by rw [hpc]; rfl)
  have hheld : Held s c := held_of_ref (l := l) (by rw [hpc]; rfl)
  have hawaiting : TcpServer.awaiting (setPc s l (.erased c)) c = TcpServer.awaiting s c :=
    awaiting_setPc (by rw [hpc]; simp)
  cases h with
  | absent hnone =>
    rw [hnone] at hk
    cases hk
  | present k' hst hk' hat =>
    obtain rfl : k = k' := Option.some.inj (hk.symm.trans hk')
    have hnot := hat.handled l (by rw [hpc]; rfl)
    have herased := hat.erased
    rw [hloop, hpc] at herased
    -- behind the erase nothing is left under the key
    have hat' {st' : Stage} (hst' : st' = .erased ∨ st' = .erasedAgain)
        (hreg : k.registered = true ↔ st' = .established ∨ st' = .erased) :
        Holds { setPc s l (.erased c) with
          connectionMap := s.connectionMap.erase k.fd } c st' := by
      refine .present k (by rcases hst' with rfl | rfl <;> simp) hk ⟨?_, hreg, ?_, ?_, ?_⟩
      · refine hawaiting.trans (hat.awaiting.trans ?_)
        rw [if_neg hnot, if_neg (by rcases hst' with rfl | rfl <;> simp)]
      · rw [AList.lookup_erase]
        rcases hst' with rfl | rfl <;> simp
      · rw [hloop]
        simp [setPc, setLoop, hst']
      · intro _ _
        rcases hst' with rfl | rfl <;> simp
    cases hlookup : s.connectionMap.lookup k.fd with
    | none =>
      have hmapped := hat.mapped
      rw [hlookup] at hmapped
      obtain rfl : st = .disconnected := by
        cases st <;> simp_all
      exact ⟨.erasedAgain, rfl, hat' (.inr rfl) (by simpa using hat.registered)⟩
    | some e =>
      obtain rfl := hi.lookup_eq hk hheld hlookup
      obtain rfl : st = .established := (hat.mapped.mp hlookup).resolve_left hnot
      exact ⟨.erased, if_pos rfl, hat' (.inl rfl) (by simpa using hat.registered)⟩

/-- `connectDestroyed` of `c` runs. -/
lemma Holds.disconnect {st : Stage} {k : Conn n} (h : Holds s c st) (hconf : Confined s)
    (hk : s.conns c = some k) (hpc : (s.loops l).pc = .erased c) :
    st.advance (.disconnected c) = some .disconnected ∧
      Holds (runTask (setPc s l (.closed c)) (.connectDestroyed c)).1 c .disconnected := by
  have hloop := hconf.loop_eq hk (l := l) (by rw [hpc]; rfl)
  cases h with
  | absent hnone =>
    rw [hnone] at hk
    cases hk
  | present k' hst hk' hat =>
    obtain rfl : k = k' := Option.some.inj (hk.symm.trans hk')
    have hstage := hat.erased.mp (hloop ▸ hpc)
    refine ⟨by rcases hstage with rfl | rfl <;> rfl,
      .present { k with registered := false } (by simp) ?_ ⟨?_, by simp, ?_, ?_, by simp⟩⟩
    · simp [runTask, updateConn, setPc, setLoop, hk]
    · rw [awaiting_runTask, awaiting_setPc (by rw [hpc]; simp), hat.awaiting]
      rcases hstage with rfl | rfl <;> simp
    · have hmapped := hat.mapped
      rcases hstage with rfl | rfl <;>
        simpa [runTask, updateConn, setPc, setLoop] using hmapped
    · rw [pc_runTask, hloop, pc_setPc, if_pos rfl]
      simp

/-- The stage of `c` in the next state, by what is shown of it. -/
def Comes (obs o : List Obs) (t : State n) (c : ConnId) : Prop :=
  ∃ st, life c (obs ++ o) = some st ∧ Holds t c st

section Step

variable {st : Stage} (hlife : life c obs = some st) (h : Holds s c st)
include hlife h

lemma comes_same (hsame : Same s t c) (hnew : Handles s t c) (ho : ∀ x ∈ o, x.conn ≠ c) :
    Comes obs o t c :=
  ⟨st, life_other hlife ho, h.same hsame hnew⟩

lemma comes_create {fd : ℕ} (hi : Inv s) (hconf : Confined s) (hnew : Handles s
      { setPc s 0 (.inserted d) with
        conns := Function.update s.conns d
          (some { fd := fd, loop := l, registered := false, kept := 0, alive := true })
        connectionMap := s.connectionMap.insert fd d } c)
    (hpc : (s.loops 0).pc = .accepted fd) (hd : s.conns d = none) :
    Comes obs [.created d] { setPc s 0 (.inserted d) with
      conns := Function.update s.conns d
        (some { fd := fd, loop := l, registered := false, kept := 0, alive := true })
      connectionMap := s.connectionMap.insert fd d } c := by
  by_cases hdc : d = c
  · subst hdc
    obtain rfl : st = .absent := by
      cases h with
      | absent => rfl
      | present k _ hk =>
        rw [hd] at hk
        cases hk
    exact ⟨.created, life_advance hlife rfl rfl,
      Holds.create (k := ⟨fd, l, false, 0, true⟩) hi hconf hd (by rw [hpc]; simp) rfl⟩
  · have hpcs : Same s (setPc s 0 (.inserted d)) c := by
      apply same_setPc <;> rw [hpc] <;> simp [hdc]
    refine comes_same hlife h (hpcs.trans ⟨?_, rfl, ?_, fun _ => Iff.rfl⟩) hnew
      (by simpa [Obs.conn])
    · simp only [Function.update_of_ne (Ne.symm hdc)]
      rfl
    · intro fd'
      by_cases hfd : fd' = fd
      · -- the new descriptor was under no key
        subst hfd
        rw [AList.lookup_insert]
        refine ⟨fun heq => absurd (Option.some.inj heq) hdc, fun heq => ?_⟩
        exact absurd (hi.entry fd' c heq) ((hi.accepted fd' hpc).2 c)
      · rw [AList.lookup_insert_ne hfd]
        rfl

lemma comes_establish {k : Conn n} (hi : Inv s) (hpc : (s.loops l).pc = .inserted d)
    (hnew : Handles s (setPc (runInLoop s l k.loop (.connectEstablished d)).1 l (.returning d)) c) :
    Comes obs (runInLoop s l k.loop (.connectEstablished d)).2
      (setPc (runInLoop s l k.loop (.connectEstablished d)).1 l (.returning d)) c := by
  rcases runInLoop_cases s l k.loop (.connectEstablished d) with heq | heq <;> rw [heq] at hnew ⊢
  · have hcomm : setPc (runTask s (.connectEstablished d)).1 l (.returning d) =
        (runTask (setPc s l (.returning d)) (.connectEstablished d)).1 := rfl
    rw [hcomm] at hnew ⊢
    by_cases hdc : d = c
    · subst hdc
      obtain ⟨rfl, hholds⟩ := h.establish (u := setPc s l (.returning d)) hi rfl rfl
        (erased_setLoop (by rw [hpc]; simp)) (awaiting_leave hpc (by simp))
      exact ⟨.established, life_advance hlife rfl rfl, hholds⟩
    · refine comes_same hlife h (Same.trans ?_ (same_runTask hdc)) hnew
        (by simpa [runTask, Obs.conn])
      apply same_setPc <;> rw [hpc] <;> simp [hdc]
  · -- the functor waits at the connection's loop instead
    have hpcq (i : Fin (n + 1)) : ((queueInLoop s k.loop (.connectEstablished d)).loops i).pc =
        (s.loops i).pc := by
      apply pc_setLoop_of_pc
      rfl
    have hawaiting : awaiting (setPc (queueInLoop s k.loop (.connectEstablished d)) l
        (.returning d)) c = awaiting s c := by
      have hqueue := awaiting_queueInLoop (s := s) (c := c) k.loop (.connectEstablished d)
      by_cases hdc : d = c
      · subst hdc
        have hleave : awaiting (setPc (queueInLoop s k.loop (.connectEstablished d)) l
            (.returning d)) d + 1 = awaiting (queueInLoop s k.loop (.connectEstablished d)) d :=
          awaiting_leave (by rw [hpcq, hpc]) (by simp)
        rw [if_pos rfl] at hqueue
        omega
      · rw [awaiting_setPc (by rw [hpcq, hpc]; simp [hdc]), hqueue, if_neg (by simpa),
          Nat.add_zero]
    refine comes_same hlife h ⟨rfl, hawaiting, fun _ => Iff.rfl, fun i => ?_⟩ hnew (by simp)
    rw [← hpcq]
    exact erased_setLoop (by rw [hpcq, hpc]; simp) i

lemma comes_erase {k : Conn n} (hi : Inv s) (hconf : Confined s)
    (hk : s.conns d = some k) (hpc : (s.loops l).pc = .closing d)
    (hnew : Handles s { setPc s l (.erased d) with
      connectionMap := s.connectionMap.erase k.fd } c) :
    Comes obs [.removed d (s.connectionMap.lookup k.fd)] { setPc s l (.erased d) with
      connectionMap := s.connectionMap.erase k.fd } c := by
  by_cases hdc : d = c
  · subst hdc
    obtain ⟨st', hadvance, hholds⟩ := h.erase hi hconf hk hpc
    exact ⟨st', life_advance hlife rfl hadvance, hholds⟩
  · have hpcs : Same s (setPc s l (.erased d)) c := by
      apply same_setPc <;> rw [hpc] <;> simp [hdc]
    refine comes_same hlife h (hpcs.trans ⟨rfl, rfl, fun fd => ?_, fun _ => Iff.rfl⟩) hnew
      (by simpa [Obs.conn])
    by_cases hfd : fd = k.fd
    · subst hfd
      rw [AList.lookup_erase]
      refine ⟨by simp, fun heq => ?_⟩
      have hheld : Held s d := held_of_ref (l := l) (by rw [hpc]; rfl)
      exact absurd (hi.lookup_eq hk hheld heq) (Ne.symm hdc)
    · rw [AList.lookup_erase_ne hfd]
      rfl

lemma comes_disconnect {k : Conn n} (hconf : Confined s) (hk : s.conns d = some k)
    (hpc : (s.loops l).pc = .erased d)
    (hnew : Handles s (setPc (runInLoop s l k.loop (.connectDestroyed d)).1 l (.closed d)) c) :
    Comes obs (runInLoop s l k.loop (.connectDestroyed d)).2
      (setPc (runInLoop s l k.loop (.connectDestroyed d)).1 l (.closed d)) c := by
  rw [runInLoop, if_pos (hconf.loop_eq hk (by rw [hpc]; rfl))] at hnew ⊢
  have hcomm : setPc (runTask s (.connectDestroyed d)).1 l (.closed d) =
      (runTask (setPc s l (.closed d)) (.connectDestroyed d)).1 := rfl
  rw [hcomm] at hnew ⊢
  by_cases hdc : d = c
  · subst hdc
    obtain ⟨hadvance, hholds⟩ := h.disconnect hconf hk hpc
    exact ⟨.disconnected, life_advance hlife rfl hadvance, hholds⟩
  · refine comes_same hlife h (Same.trans ?_ (same_runTask hdc)) hnew
      (by simpa [runTask, Obs.conn])
    apply same_setPc <;> rw [hpc] <;> simp [hdc]

lemma comes_run {task : Task} {todo : List Task} (hi : Inv s) (hconf : Confined s)
    (htodo : (s.loops l).todo = task :: todo)
    (hnew : Handles s (runTask (setLoop s l
      { s.loops l with ran := (s.loops l).ran ++ [task], todo := todo }) task).1 c) :
    Comes obs (runTask (setLoop s l
        { s.loops l with ran := (s.loops l).ran ++ [task], todo := todo }) task).2
      (runTask (setLoop s l
        { s.loops l with ran := (s.loops l).ran ++ [task], todo := todo }) task).1 c := by
  obtain ⟨d, rfl, -⟩ := hconf.tasks l task (by simp [Loop.tasks, htodo])
  by_cases hdc : d = c
  · subst hdc
    obtain ⟨rfl, hholds⟩ := h.establish (u := setLoop s l { s.loops l with
        ran := (s.loops l).ran ++ [.connectEstablished d], todo := todo }) hi rfl rfl
      (erased_setLoop Iff.rfl) (awaiting_run rfl rfl htodo)
    exact ⟨.established, life_advance hlife rfl rfl, hholds⟩
  · refine comes_same hlife h (Same.trans ?_ (same_runTask hdc)) hnew
      (by simpa [runTask, Obs.conn])
    refine same_setLoop ?_ Iff.rfl
    simp only [Loop.awaits, htodo, List.count_append]
    rw [List.count_cons_of_ne (by simpa)]

/-- Each step brings each connection to its next stage, or leaves it where it stands. -/
lemma comes_step {e : Event n} (hi : Inv s) (hconf : Confined s)
    (hstep : step s e = some (t, o)) : Comes obs o t c := by
  have hnew : Handles s t c := fun l hl => handled_step hstep hl
  cases Move.of_step hstep with
  | create d l fd hpc hd => exact comes_create hlife h hi hconf hnew hpc hd
  | establish l d k hpc hk => exact comes_establish hlife h hi hpc hnew
  | erase l d k hpc hk => exact comes_erase hlife h hi hconf hk hpc hnew
  | disconnect l d k hpc hk => exact comes_disconnect hlife h hconf hk hpc hnew
  | run l task todo hpc htodo => exact comes_run hlife h hi hconf htodo hnew
  | accept fd hpc hfd =>
    have hpcs : Same s (setPc s 0 (.accepted fd)) c := by
      apply same_setPc <;> rw [hpc] <;> simp
    exact comes_same hlife h ⟨rfl, hpcs.awaiting, fun _ => Iff.rfl, hpcs.erased⟩ hnew (by simp)
  | returnNew l d hpc | leave l d hpc | close l d hpc _ | returnClose l d hpc
  | callback l d k hpc _ _ =>
    refine comes_same hlife h ?_ hnew (by simp)
    apply same_setPc <;> rw [hpc] <;> simp
  | swap l hpc =>
    refine comes_same hlife h (same_setLoop ?_ (by rw [hpc]; simp)) hnew (by simp)
    simp [Loop.awaits, hpc, (hconf.whole l (by rw [hpc]; simp)).2]
  | batchDone l hpc htodo =>
    refine comes_same hlife h (same_setLoop ?_ (by rw [hpc]; simp)) hnew (by simp)
    simp [Loop.awaits, hpc]
  | keep d _ | drop d _ =>
    exact comes_same hlife h (same_updateConn fun _ _ => rfl) hnew (by simp)
  | destroy d k _ _ _ =>
    have hconn : Same s (updateConn s d fun k => { k with alive := false }) c :=
      same_updateConn fun _ _ => rfl
    exact comes_same hlife h ⟨hconn.conn, rfl, fun _ => Iff.rfl, fun _ => Iff.rfl⟩ hnew (by simp)

end Step

lemma life_of_run (h : (system n).Run obs s) (c : ConnId) :
    ∃ st, life c obs = some st ∧ Holds s c st := by
  refine h.invariant (P := fun obs s => ∃ st, life c obs = some st ∧ Holds s c st)
    ⟨.absent, rfl, .absent rfl⟩ ?_
  rintro obs s e t o hr ⟨st, hlife, hholds⟩ hstep
  exact comes_step hlife hholds (inv_of_reachable hr.reachable)
    (confined_of_reachable hr.reachable) hstep

/-- In every run each connection follows the automaton, and stands where its stage says: it waits
for `connectEstablished` exactly once and in one place, it is in the map from its creation to its
removal, and in the interest list from `connectEstablished` to the `connectDestroyed` of its first
removal. -/
theorem connection_life (h : (system n).Run obs s) :
    ∀ c, ∃ st, life c obs = some st ∧ Holds s c st := life_of_run h

/-- A connection is removed, and removed again in the same callback. -/
theorem connection_life_twice : ∃ (obs : List Obs) (s : State 1), (system 1).Run obs s ∧
    obs = [.created 0, .established 0, .removed 0 (some 0), .disconnected 0, .removed 0 none] ∧
      ∃ st, life 0 obs = some st ∧ Holds s 0 st := by
  obtain ⟨s, obs, hexec, hobs⟩ : ∃ s obs, (system 1).exec (init 1)
      [.accept 5, .create 0 1, .next 0, .next 0, .swap 1, .next 1, .next 1, .callback 1 0,
        .keep 0, .close 1, .next 1, .next 1, .next 1, .close 1, .next 1] = some (s, obs) ∧
      obs = [.created 0, .established 0, .removed 0 (some 0), .disconnected 0,
        .removed 0 none] := ⟨_, _, rfl, by decide⟩
  have hrun : (system 1).Run obs s := .of_exec _ hexec
  exact ⟨obs, s, hrun, hobs, connection_life hrun 0⟩

end ClwServer.TcpServer
