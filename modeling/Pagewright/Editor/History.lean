import Pagewright.Editor.Edit

/-!
# History

What was done to a page, and what was undone. Each step of the history holds its edits, in the
order in which they were made, and the edits that take them back, last first.

* An edit is a step of its own, or joins the open batch (`History.applyTo`, `History.openBatch`,
  `History.closeBatch`). A batch can be given up, which takes back what it has done
  (`History.abort`).
* `History.undo` takes the newest step back, `History.redo` makes it again. A step goes back or
  forth in full, on a copy of the page; where that fails, nothing changes.
* A new step forgets what could be made again, and beyond the greatest number of steps the oldest
  one. Zero means that there is no greatest number.
-/

namespace Pagewright

/-! ## 1. Steps -/

/-- Edits that are undone and made again together. -/
structure Step where
  edits : List Edit
  inverses : List Edit
  description : Option String

namespace Step

/-- A step of one edit. -/
def single (edit inverse : Edit) : Step := ⟨[edit], [inverse], none⟩

/-- A step with this description, and no edits yet. -/
def described (description : String) : Step := ⟨[], [], some description⟩

/-- The step with one more edit at its end. -/
def add (s : Step) (edit inverse : Edit) : Step :=
  { s with edits := s.edits ++ [edit], inverses := inverse :: s.inverses }

end Step

/-! ## 2. The history -/

/-- The steps that can be undone and those that can be made again, the newest first, the greatest
    number of the former, and the batch that is open. -/
structure History where
  past : List Step
  future : List Step
  limit : Nat
  batch : Option Step

namespace History

/-- The standard number of steps that are kept. -/
def standardLimit : Nat := 100

/-- A history without steps. -/
def empty (limit : Nat) : History := ⟨[], [], limit, none⟩

/-- A new step: it forgets what could be made again, and the oldest step beyond the limit. -/
def push (h : History) (s : Step) : History :=
  let past := s :: h.past
  { h with
    past := if 0 < h.limit ∧ h.limit < past.length then past.dropLast else past
    future := [] }

/-- Makes an edit on the page in place and records it: the result, and the history and the page
    after it. -/
def applyTo (h : History) (e : Edit) (page : Forest) : Except EditFault Unit × History × Forest :=
  match e.validate page with
  | .error fault => (.error fault, h, page)
  | .ok () =>
      match e.inverse page with
      | .error fault => (.error fault, h, page)
      | .ok inverse =>
          match e.applyTo page with
          | (.error fault, page') => (.error fault, h, page')
          | (.ok (), page') =>
              match h.batch with
              | some s => (.ok (), { h with batch := some (s.add e inverse) }, page')
              | none => (.ok (), h.push (.single e inverse), page')

/-- Makes an edit and records it: the history and the page after it, unless it fails. -/
def apply (h : History) (e : Edit) (page : Forest) : Except EditFault (History × Forest) :=
  match h.applyTo e page with
  | (.error fault, _) => .error fault
  | (.ok (), after) => .ok after

/-! ## 3. Batches -/

/-- Opens a batch, in place of one that is open. -/
def openBatch (h : History) (description : String) : History :=
  { h with batch := some (.described description) }

/-- The history with a batch as its newest step, unless the batch is empty. -/
def pushUnlessEmpty (h : History) (s : Step) : History :=
  if s.edits.isEmpty then h else h.push s

/-- Closes the open batch, which becomes a step unless it is empty. -/
def closeBatch (h : History) : History :=
  match h.batch with
  | none => h
  | some s => { h with batch := none }.pushUnlessEmpty s

/-- Gives the open batch up and takes back what it has done. Where that fails, the page stays and
    the batch becomes a step. -/
def abort (h : History) (page : Forest) : History × Except EditFault Forest :=
  match h.batch with
  | none => (h, .ok page)
  | some s =>
      let closed := { h with batch := none }
      match Edit.replay page s.inverses with
      | .ok page' => (closed, .ok page')
      | .error fault => (closed.pushUnlessEmpty s, .error fault)

/-! ## 4. Back and forth -/

/-- Takes the newest step back; nothing where there is none. -/
def undo (h : History) (page : Forest) : Except EditFault (Option (History × Forest)) :=
  match h.past with
  | [] => .ok none
  | s :: past =>
      match Edit.replay page s.inverses with
      | .error fault => .error fault
      | .ok page' => .ok (some ({ h with past := past, future := s :: h.future }, page'))

/-- Makes the step that was undone last again; nothing where there is none. -/
def redo (h : History) (page : Forest) : Except EditFault (Option (History × Forest)) :=
  match h.future with
  | [] => .ok none
  | s :: future =>
      match Edit.replay page s.edits with
      | .error fault => .error fault
      | .ok page' => .ok (some ({ h with past := s :: h.past, future := future }, page'))

/-- Forgets every step, and the open batch. -/
def clear (h : History) : History := empty h.limit

/-- Whether there is a step to undo. -/
def canUndo (h : History) : Bool := !h.past.isEmpty

/-- Whether there is a step to make again. -/
def canRedo (h : History) : Bool := !h.future.isEmpty

/-- The description of the step that would be undone. -/
def description (h : History) : Option String := h.past.head?.bind Step.description

end History

end Pagewright
