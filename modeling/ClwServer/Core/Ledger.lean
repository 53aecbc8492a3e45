import Mathlib.Data.List.Induction

/-!
# Ledgers of grouped messages

What a buffered log is for, without its buffers: messages come in one by one and are collected
in groups, and groups leave in the order in which they were opened. Of the groups that leave
together some first ones are kept and the others are dropped, as a whole. A ledger remembers
the fate of every group, so that `Ledger.messages` is at any time all that ever came in.
-/

/-- Groups of messages: the ones that left, each with whether it was kept, and the live ones,
the last of which is open. -/
structure Ledger (M : Type*) where
  retired : List (Bool × List M)
  live : List (List M)

namespace Ledger

variable {M : Type*}

/-- All messages that came in, in order. -/
def messages (L : Ledger M) : List M := L.retired.flatMap Prod.snd ++ L.live.flatten

/-- The groups that left and were kept. -/
def kept (L : Ledger M) : List (List M) := (L.retired.filter (·.1)).map Prod.snd

/-- The groups that left and were dropped. -/
def dropped (L : Ledger M) : List (List M) := (L.retired.filter (!·.1)).map Prod.snd

/-- A message enters the open group. -/
def put (m : M) (L : Ledger M) : Ledger M :=
  { L with live := L.live.dropLast ++ [L.live.getLast?.getD [] ++ [m]] }

/-- A new group is opened. -/
def openGroup (L : Ledger M) : Ledger M := { L with live := L.live ++ [[]] }

/-- The first `n` live groups leave; the first `k` of them are kept. -/
def retire (n k : ℕ) (L : Ledger M) : Ledger M where
  retired := L.retired ++ (((L.live.take n).take k).map (true, ·) ++
    ((L.live.take n).drop k).map (false, ·))
  live := L.live.drop n

/-! ### No operation loses a message -/

lemma dropLast_append_getLast?_flatten (ls : List (List M)) :
    ls.dropLast.flatten ++ ls.getLast?.getD [] = ls.flatten := by
  cases ls using List.reverseRecOn with
  | nil => rfl
  | append_singleton ls l => simp

@[simp] lemma messages_put (m : M) (L : Ledger M) :
    (L.put m).messages = L.messages ++ [m] := by
  simp only [messages, put, List.flatten_append, List.flatten_singleton]
  rw [← dropLast_append_getLast?_flatten L.live]
  simp only [List.append_assoc]

@[simp] lemma messages_openGroup (L : Ledger M) : L.openGroup.messages = L.messages := by
  simp [messages, openGroup]

@[simp] lemma messages_retire (n k : ℕ) (L : Ledger M) :
    (L.retire n k).messages = L.messages := by
  have hsplit : ((L.live.take n).take k).flatten ++ ((L.live.take n).drop k).flatten
      = (L.live.take n).flatten := by
    rw [← List.flatten_append, List.take_append_drop]
  have hall : (L.live.take n).flatten ++ (L.live.drop n).flatten = L.live.flatten := by
    rw [← List.flatten_append, List.take_append_drop]
  simp only [messages, retire, List.flatMap_append, List.flatMap_map, List.flatMap_id',
    List.append_assoc]
  rw [← List.append_assoc _ _ (L.live.drop n).flatten, hsplit, hall]

/-! ### The fate of the groups -/

lemma filter_map_tag (p : Bool → Bool) (b : Bool) (ls : List (List M)) :
    (ls.map (b, ·)).filter (fun g => p g.1) = if p b then ls.map (b, ·) else [] := by
  induction ls with
  | nil => simp
  | cons l ls ih =>
    simp only [List.map_cons, List.filter_cons, ih]
    split <;> rfl

@[simp] lemma kept_openGroup (L : Ledger M) : L.openGroup.kept = L.kept := rfl

lemma kept_retire (n k : ℕ) (L : Ledger M) :
    (L.retire n k).kept = L.kept ++ (L.live.take n).take k := by
  have htrue := filter_map_tag (fun b => b) true ((L.live.take n).take k)
  have hfalse := filter_map_tag (fun b => b) false ((L.live.take n).drop k)
  simp only [if_true, Bool.false_eq_true, if_false] at htrue hfalse
  simp only [kept, retire, List.filter_append, List.map_append, htrue, hfalse, List.map_map]
  simp [Function.comp_def]

lemma dropped_retire (n k : ℕ) (L : Ledger M) :
    (L.retire n k).dropped = L.dropped ++ (L.live.take n).drop k := by
  have htrue := filter_map_tag (!·) true ((L.live.take n).take k)
  have hfalse := filter_map_tag (!·) false ((L.live.take n).drop k)
  simp only [Bool.not_true, Bool.not_false, if_true, Bool.false_eq_true, if_false] at htrue hfalse
  simp only [dropped, retire, List.filter_append, List.map_append, htrue, hfalse, List.map_map]
  simp [Function.comp_def]

/-- Where nothing was dropped, all messages are in the kept and the live groups. -/
lemma messages_of_dropped_eq_nil {L : Ledger M} (h : L.dropped = []) :
    L.messages = (L.kept ++ L.live).flatten := by
  have hall : L.retired.filter (·.1) = L.retired := by
    rw [dropped, List.map_eq_nil_iff, List.filter_eq_nil_iff] at h
    rw [List.filter_eq_self]
    simpa using h
  rw [messages, kept, hall, List.flatten_append, List.flatMap_def]

/-- What the images of some items are divided into divides the items. -/
lemma exists_parts_of_map_eq_flatten {α β : Type*} {f : α → β} {as : List α}
    {parts : List (List β)} (h : as.map f = parts.flatten) :
    ∃ qs : List (List α), qs.flatten = as ∧ qs.map (List.map f) = parts := by
  induction parts generalizing as with
  | nil => exact ⟨[], by simpa using h.symm, rfl⟩
  | cons p parts ih =>
    rw [List.flatten_cons, List.map_eq_append_iff] at h
    obtain ⟨q, as', rfl, hq, has'⟩ := h
    obtain ⟨qs, rfl, hqs⟩ := ih has'
    exact ⟨q :: qs, rfl, by rw [List.map_cons, hq, hqs]⟩

/-! ### The log of a ledger -/

/-- All groups ever opened, each with whether it was kept so far. -/
def log (L : Ledger M) : List (Bool × List M) := L.retired ++ L.live.map (true, ·)

lemma log_messages (L : Ledger M) : L.log.flatMap Prod.snd = L.messages := by
  simp [log, messages, List.flatMap_append, List.flatMap_map]

lemma log_kept (L : Ledger M) : (L.log.filter (·.1)).map Prod.snd = L.kept ++ L.live := by
  have hlive := filter_map_tag (fun b => b) true L.live
  simp only [if_true] at hlive
  rw [log, List.filter_append, hlive, List.map_append, List.map_map, kept]
  simp [Function.comp_def]

lemma log_dropped (L : Ledger M) : (L.log.filter (!·.1)).map Prod.snd = L.dropped := by
  have hlive := filter_map_tag (!·) true L.live
  simp only [Bool.not_true, Bool.false_eq_true, if_false] at hlive
  rw [log, List.filter_append, hlive, List.append_nil, dropped]

end Ledger
