import Pagewright.Proofs.Editor.Journal

/-!
# What a history with a limit keeps

A history is asked anything in any order, on whatever page is at hand. This file says how many steps
it has at most, and which of the steps it was given it still has.

* `Turn`, `History.turn` -- everything that can be asked: edits and batches (`Call`), giving a batch
  up, going back and forth, and forgetting all. Each comes with a page of its own, so others may
  have changed the page in between, and each may fail;
* `Call.completed`, `Call.opened`, `Call.steps` -- the steps that edits and batches amount to, read
  off the calls: they know no limit and no history;
* `History.Within` -- **the invariant**: what can be undone and what can be made again are together
  no more than the limit. To make a step again drops none, so that a bound on the past alone would
  not last;
* `History.newest_retained` -- so a history **never exceeds its limit**, and one that has been empty
  **holds the newest steps that were recorded since**, as many as fit, in order.
-/

namespace Pagewright

/-! ## 1. Turns -/

/-- What can be asked of a history, with the page at hand. -/
inductive Turn where
  | call (c : Call)
  | abort (page : Forest)
  | undo (page : Forest)
  | redo (page : Forest)
  | clear

namespace History

/-- The history after going back or forth: the same, where that fails or there is no step. -/
def afterMove (h : History) : Except EditFault (Option (History × Forest)) → History
  | .ok (some (after, _)) => after
  | .ok none => h
  | .error _ => h

/-- The history after a turn. -/
def turn (h : History) : Turn → History
  | .call c => h.call c
  | .abort page => (h.abort page).1
  | .undo page => h.afterMove (h.undo page)
  | .redo page => h.afterMove (h.redo page)
  | .clear => h.clear

/-- The history after turns. -/
def turnAll (h : History) : List Turn → History
  | [] => h
  | t :: ts => (h.turn t).turnAll ts

end History

/-! ## 2. What calls record -/

/-- The inverse of an edit on a page, if the edit can be made there. -/
def Edit.inverseIfMade (e : Edit) (page : Forest) : Option Edit :=
  match e.apply page, e.inverse page with
  | .ok _, .ok inverse => some inverse
  | _, _ => none

namespace Call

/-- The steps that a call completes, where this batch is open. -/
def completed (batch : Option Step) : Call → List Step
  | .edit e page =>
      match batch with
      | none => ((e.inverseIfMade page).map (Step.single e)).toList
      | some _ => []
  | .openBatch _ => []
  | .closeBatch => batch.toList.filter fun s => !s.edits.isEmpty

/-- The batch that is open after a call, where this one was open. -/
def opened (batch : Option Step) : Call → Option Step
  | .edit e page => batch.map fun s => (e.inverseIfMade page).elim s (s.add e)
  | .openBatch description => some (.described description)
  | .closeBatch => none

/-- The steps that calls complete in turn, the oldest first. -/
def steps (batch : Option Step) : List Call → List Step
  | [] => []
  | c :: cs => c.completed batch ++ steps (c.opened batch) cs

end Call

namespace History

variable {bound : Nat} {h : History}

/-- **An edit that is asked is recorded if it can be made**, and else leaves the history. -/
theorem call_edit (h : History) (e : Edit) (page : Forest) :
    h.call (.edit e page) = (e.inverseIfMade page).elim h (h.note e) := by
  rw [call, applyTo, Edit.validate, Edit.applyTo, Edit.inverseIfMade, Edit.apply]
  cases hc : e.check page true with
  | error fault => rfl
  | ok u =>
      -- an edit that has passed its check is made in full, so that only its inverse can be missing
      obtain ⟨page', hp⟩ := Edit.exists_perform hc
      simp only [Edit.carryOut_of_perform hp, hp]
      cases e.inverse page with
      | error fault => rfl
      | ok inv =>
          simp only [Option.elim_some, note]
          cases h.batch with
          | none => rfl
          | some s => rfl

/-! ## 3. The limit -/

/-- A history of this limit, with no more steps than it allows, undone ones included. -/
structure Within (bound : Nat) (h : History) : Prop where
  limit : h.limit = bound
  count : h.past.length + h.future.length ≤ bound

theorem within_empty : Within bound (empty bound) := ⟨rfl, Nat.zero_le _⟩

namespace Within

theorem withBatch (hw : Within bound h) (batch : Option Step) :
    Within bound { h with batch := batch } := ⟨hw.limit, hw.count⟩

/-- A new step comes before those that were kept, and all are cut off at the limit. -/
theorem past_push (hw : Within bound h) (hpos : 0 < bound) (s : Step) :
    (h.push s).past = (s :: h.past).take bound := by
  obtain ⟨rfl, hcount⟩ := hw
  simp only [push]
  by_cases hover : h.limit < (s :: h.past).length
  · -- the history was full, so what is over is one step
    rw [if_pos ⟨hpos, hover⟩, List.dropLast_eq_take]
    rw [List.length_cons] at hover ⊢
    congr 1
    omega
  · rw [if_neg fun hboth => hover hboth.2, List.take_of_length_le (Nat.le_of_not_lt hover)]

theorem push (hw : Within bound h) (hpos : 0 < bound) (s : Step) : Within bound (h.push s) where
  limit := hw.limit
  count := by
    rw [hw.past_push hpos]
    exact List.length_take_le _ _

theorem pushUnlessEmpty (hw : Within bound h) (hpos : 0 < bound) (s : Step) :
    Within bound (h.pushUnlessEmpty s) := by
  rw [History.pushUnlessEmpty]
  by_cases hempty : s.edits.isEmpty = true
  · rwa [if_pos hempty]
  · rw [if_neg hempty]
    exact hw.push hpos s

theorem call (hw : Within bound h) (hpos : 0 < bound) (c : Call) : Within bound (h.call c) := by
  cases c with
  | edit e page =>
      rw [call_edit]
      cases e.inverseIfMade page with
      | none => exact hw
      | some inv =>
          show Within bound (h.note e inv)
          rw [note]
          cases h.batch with
          | none => exact hw.push hpos _
          | some s => exact hw.withBatch _
  | openBatch description => exact hw.withBatch _
  | closeBatch =>
      show Within bound h.closeBatch
      rw [closeBatch]
      cases h.batch with
      | none => exact hw
      | some s => exact (hw.withBatch none).pushUnlessEmpty hpos s

/-- A batch that cannot be taken back is recorded as any other. -/
theorem abort (hw : Within bound h) (hpos : 0 < bound) (page : Forest) :
    Within bound (h.abort page).1 := by
  rw [History.abort]
  cases h.batch with
  | none => exact hw
  | some s =>
      simp only
      cases Edit.replay page s.inverses with
      | ok page' => exact hw.withBatch none
      | error fault => exact (hw.withBatch none).pushUnlessEmpty hpos s

/-- Steps that only change sides are as many as before. -/
theorem moved (hw : Within bound h) {past future : List Step}
    (hsame : past.length + future.length = h.past.length + h.future.length) :
    Within bound { h with past := past, future := future } :=
  ⟨hw.limit, Nat.le_trans (Nat.le_of_eq hsame) hw.count⟩

/-- Going back moves a step from the past to the future. -/
theorem undo (hw : Within bound h) (page : Forest) :
    Within bound (h.afterMove (h.undo page)) := by
  rw [History.undo]
  cases hp : h.past with
  | nil => exact hw
  | cons s past =>
      simp only
      cases Edit.replay page s.inverses with
      | error fault => exact hw
      | ok page' =>
          refine hw.moved ?_
          rw [hp, List.length_cons, List.length_cons]
          omega

/-- Going forth moves it back. There is room for it, since it was counted all along. -/
theorem redo (hw : Within bound h) (page : Forest) :
    Within bound (h.afterMove (h.redo page)) := by
  rw [History.redo]
  cases hf : h.future with
  | nil => exact hw
  | cons s future =>
      simp only
      cases Edit.replay page s.edits with
      | error fault => exact hw
      | ok page' =>
          refine hw.moved ?_
          rw [hf, List.length_cons, List.length_cons]
          omega

/-- **No turn exceeds the limit.** -/
theorem turn (hw : Within bound h) (hpos : 0 < bound) (t : Turn) : Within bound (h.turn t) := by
  cases t with
  | call c => exact hw.call hpos c
  | abort page => exact hw.abort hpos page
  | undo page => exact hw.undo page
  | redo page => exact hw.redo page
  | clear => exact ⟨hw.limit, Nat.zero_le _⟩

theorem turnAll (hw : Within bound h) (hpos : 0 < bound) (ts : List Turn) :
    Within bound (h.turnAll ts) := by
  induction ts generalizing h with
  | nil => exact hw
  | cons t ts ih => exact ih (hw.turn hpos t)

end Within

/-! ## 4. The newest steps -/

/-- **One call adds the steps it completes** before those that were kept, and all are cut off at the
    limit. -/
theorem past_call (hw : Within bound h) (hpos : 0 < bound) (c : Call) :
    (h.call c).past = ((c.completed h.batch).reverse ++ h.past).take bound ∧
      (h.call c).batch = c.opened h.batch := by
  have hkept : h.past = h.past.take bound :=
    (List.take_of_length_le (Nat.le_trans (Nat.le_add_right ..) hw.count)).symm
  cases c with
  | edit e page =>
      rw [call_edit]
      cases hb : h.batch with
      | none =>
          rw [Call.completed, Call.opened]
          cases e.inverseIfMade page with
          | none => exact ⟨hkept, hb⟩
          | some inv =>
              rw [Option.elim_some, note, hb]
              exact ⟨hw.past_push hpos _, hb⟩
      | some s =>
          rw [Call.completed, Call.opened]
          cases e.inverseIfMade page with
          | none => exact ⟨hkept, hb⟩
          | some inv =>
              rw [Option.elim_some, note, hb]
              exact ⟨hkept, rfl⟩
  | openBatch description => exact ⟨hkept, rfl⟩
  | closeBatch =>
      rw [call, closeBatch, Call.completed, Call.opened]
      cases hb : h.batch with
      | none => exact ⟨hkept, hb⟩
      | some s =>
          simp only [pushUnlessEmpty, Option.toList_some]
          by_cases hempty : s.edits.isEmpty = true
          · rw [if_pos hempty, List.filter_cons_of_neg (by simp [hempty])]
            exact ⟨hkept, rfl⟩
          · rw [if_neg hempty, List.filter_cons_of_pos (by simpa using hempty)]
            exact ⟨(hw.withBatch none).past_push hpos s, rfl⟩

/-- What is cut off twice at one length is cut off once. -/
theorem take_append_take {α : Type} (l m : List α) (n : Nat) :
    (l ++ m.take n).take n = (l ++ m).take n := by
  rw [List.take_append, List.take_take, Nat.min_eq_left (Nat.sub_le ..), ← List.take_append]

/-- **Calls add the steps they complete**, and what is over the limit is dropped from the other end,
    no matter after which call. -/
theorem past_callAll (hw : Within bound h) (hpos : 0 < bound) (cs : List Call) :
    (h.callAll cs).past = ((Call.steps h.batch cs).reverse ++ h.past).take bound := by
  induction cs generalizing h with
  | nil => exact (List.take_of_length_le (Nat.le_trans (Nat.le_add_right ..) hw.count)).symm
  | cons c cs ih =>
      obtain ⟨hpast, hbatch⟩ := past_call hw hpos c
      rw [callAll, ih (hw.call hpos c), hbatch, hpast, Call.steps, List.reverse_append,
        List.append_assoc, take_append_take]

/-- **A history keeps the newest steps, as many as its limit allows.** Of a history with a limit
    that is not zero, anything is asked in any order, each time on any page, so that much of it may
    fail. Then

    * the steps that can be undone and those that can be made again are together no more than the
      limit;
    * if there is no step to undo, edits and batches are asked from there on, again in any order and
      on any pages, and what can be undone after them are the last of the steps that they amount to,
      in order: all of them, or as many as the limit allows. -/
theorem newest_retained (limit : Nat) (hpos : 0 < limit) (ts : List Turn) :
    let h := (empty limit).turnAll ts
    h.past.length + h.future.length ≤ limit ∧
      (h.past = [] → ∀ cs : List Call,
        let recorded := Call.steps h.batch cs
        (h.callAll cs).past.reverse = recorded.drop (recorded.length - limit) ∧
          (h.callAll cs).past.length = min recorded.length limit) := by
  intro h
  have hw : Within limit h := within_empty.turnAll hpos ts
  refine ⟨hw.count, fun hnone cs => ?_⟩
  intro recorded
  have hpast : (h.callAll cs).past = recorded.reverse.take limit := by
    rw [past_callAll hw hpos cs, hnone, List.append_nil]
  rw [hpast]
  constructor
  · rw [List.take_reverse, List.reverse_reverse]
  · rw [List.length_take, List.length_reverse, Nat.min_comm]

/-- An edit is made and undone, and a batch is opened and given up. -/
def oneUndone : List Turn :=
  [.call (.edit (colour "red") heading), .undo heading, .call (.openBatch "restyle"),
    .abort heading]

/-- An edit, a batch of two, and an edit that follows one that fails. -/
def threeSteps : List Call :=
  [.edit (colour "green") heading, .openBatch "restyle", .edit (colour "blue") heading,
    .edit (colour "grey") heading, .closeBatch, .edit (colour "pink") [],
    .edit (colour "black") heading]

/-- Of three steps, a history with room for two keeps the last two: the batch, and the edit. -/
theorem newest_retained_two :
    ((empty 2).turnAll oneUndone).past.length = 0 ∧
      ((empty 2).turnAll oneUndone).future.length = 1 ∧
      (((empty 2).turnAll oneUndone).callAll threeSteps).past.reverse.map Step.edits =
        [[colour "blue", colour "grey"], [colour "black"]] := by
  obtain ⟨hlast, _⟩ := (newest_retained 2 (by decide) oneUndone).2 rfl threeSteps
  rw [hlast]
  exact ⟨rfl, rfl, rfl⟩

end History

end Pagewright
