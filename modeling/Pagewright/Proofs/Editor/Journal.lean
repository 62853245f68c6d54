import Pagewright.Proofs.Editor.Timeline

/-!
# What a history has recorded

Edits are made one by one and in batches, in any order and on any pages. This file weighs what the
history holds against what was made.

* `Call` -- an edit on some page, and the two ends of a batch;
* `History.made` -- what a call adds: the edit, if it is done, beside its inverse;
* `Step.entries`, `History.recorded` -- what a step holds, and what all steps hold with the open
  batch last;
* `History.lost` -- what a call drops: to open a batch is to drop what an open one holds;
* `History.Balanced` -- **the invariant**: what was recorded, with what was made since, is what is
  recorded now and what was dropped;
* `History.recorded_callAll` -- so **the history holds every edit that was made**, in order and
  beside its inverse, **exactly as long as no batch is opened while another holds an edit**.
-/

namespace Pagewright

/-! ## 1. Calls -/

/-- What can be asked of a history, but for going back and forth. -/
inductive Call where
  | edit (e : Edit) (page : Forest)
  | openBatch (description : String)
  | closeBatch

namespace Step

/-- The edits of a step, each beside its inverse. -/
def entries (s : Step) : List (Edit × Edit) := s.edits.zip s.inverses.reverse

/-- There is an inverse for each edit. -/
def Matched (s : Step) : Prop := s.edits.length = s.inverses.length

theorem matched_described (description : String) : (described description).Matched := rfl

theorem matched_single (e inv : Edit) : (single e inv).Matched := rfl

theorem entries_described (description : String) : (described description).entries = [] := rfl

variable {s : Step}

theorem Matched.add (h : s.Matched) (e inv : Edit) : (s.add e inv).Matched := by
  show (s.edits ++ [e]).length = (inv :: s.inverses).length
  rw [List.length_append, List.length_singleton, List.length_cons, h]

/-- One more edit is one more entry. -/
theorem Matched.entries_add (h : s.Matched) (e inv : Edit) :
    (s.add e inv).entries = s.entries ++ [(e, inv)] := by
  show (s.edits ++ [e]).zip (inv :: s.inverses).reverse = _
  rw [List.reverse_cons, List.zip_append (by rw [List.length_reverse, h])]
  rfl

theorem Matched.length_entries (h : s.Matched) : s.entries.length = s.edits.length := by
  rw [entries, List.length_zip, List.length_reverse, ← h, Nat.min_self]

/-- **The entries are the step**: its edits in order, and its inverses from the last to the
    first. -/
theorem Matched.of_entries (h : s.Matched) :
    s.edits = s.entries.map Prod.fst ∧ s.inverses = (s.entries.map Prod.snd).reverse := by
  have hlen : s.edits.length = s.inverses.reverse.length := by rw [List.length_reverse, h]
  constructor
  · rw [entries, List.map_fst_zip (Nat.le_of_eq hlen)]
  · rw [entries, List.map_snd_zip (Nat.le_of_eq hlen.symm), List.reverse_reverse]

end Step

namespace History

/-- The history after a call. -/
def call (h : History) : Call → History
  | .edit e page => (h.applyTo e page).2.1
  | .openBatch description => h.openBatch description
  | .closeBatch => h.closeBatch

/-- The edit that a call makes, if it is done, beside its inverse. -/
def made (h : History) : Call → List (Edit × Edit)
  | .edit e page =>
      match (h.applyTo e page).1, e.inverse page with
      | .ok (), .ok inverse => [(e, inverse)]
      | _, _ => []
  | .openBatch _ => []
  | .closeBatch => []

/-- How many edits a call drops: those of an open batch, if another one is opened. -/
def lost (h : History) : Call → Nat
  | .edit _ _ => 0
  | .openBatch _ => h.batch.elim 0 fun s => s.edits.length
  | .closeBatch => 0

/-- The history after calls in turn. -/
def callAll (h : History) : List Call → History
  | [] => h
  | c :: cs => (h.call c).callAll cs

/-- The edits that calls make in turn, each beside its inverse. -/
def madeAll (h : History) : List Call → List (Edit × Edit)
  | [] => []
  | c :: cs => h.made c ++ (h.call c).madeAll cs

/-- How many edits calls drop in turn. -/
def lostAll (h : History) : List Call → Nat
  | [] => 0
  | c :: cs => h.lost c + (h.call c).lostAll cs

/-! ## 2. What is recorded -/

/-- The steps that can be undone, the oldest first, and the open batch after them. -/
def steps (h : History) : List Step := h.past.reverse ++ h.batch.toList

/-- The edits of the steps, each beside its inverse. -/
def recorded (h : History) : List (Edit × Edit) := h.steps.flatMap Step.entries

/-- A history that keeps any number of steps, each with an inverse for each edit. -/
structure Orderly (h : History) : Prop where
  limit : h.limit = 0
  matched : ∀ s ∈ h.steps, s.Matched

/-- **The books are balanced**: what was recorded before and what was made is what is recorded
    now, but for what was dropped. -/
structure Balanced (before : List (Edit × Edit)) (h : History) (dropped : Nat) : Prop where
  kept : h.recorded.Sublist before
  count : before.length = h.recorded.length + dropped

namespace Balanced

variable {before more : List (Edit × Edit)} {h h' : History} {dropped dropped' : Nat}

theorem of_eq (e : h.recorded = before) : Balanced before h 0 := by
  subst e
  exact ⟨List.Sublist.refl _, rfl⟩

theorem trans (hb : Balanced before h dropped) (hb' : Balanced (h.recorded ++ more) h' dropped') :
    Balanced (before ++ more) h' (dropped + dropped') where
  kept := hb'.kept.trans (hb.kept.append_right more)
  count := by
    have hcount := hb'.count
    rw [List.length_append] at hcount
    rw [List.length_append, hb.count]
    omega

/-- Everything is recorded where nothing was dropped. -/
theorem recorded_eq_iff (hb : Balanced before h dropped) : h.recorded = before ↔ dropped = 0 := by
  have hcount := hb.count
  constructor
  · rintro rfl
    omega
  · rintro rfl
    exact hb.kept.eq_of_length hcount.symm

end Balanced

/-! ## 3. One call -/

variable {h : History}

theorem orderly_empty : (empty 0).Orderly := ⟨rfl, List.forall_mem_nil _⟩

theorem steps_push (hlimit : h.limit = 0) (hb : h.batch = none) (s : Step) :
    (h.push s).steps = h.steps ++ [s] := by
  simp [steps, push, hlimit, hb]

theorem Orderly.push (ho : h.Orderly) (hb : h.batch = none) {s : Step} (hs : s.Matched) :
    (h.push s).Orderly where
  limit := ho.limit
  matched := by
    rw [steps_push ho.limit hb, List.forall_mem_append, List.forall_mem_singleton]
    exact ⟨ho.matched, hs⟩

theorem recorded_push (ho : h.Orderly) (hb : h.batch = none) (s : Step) :
    (h.push s).recorded = h.recorded ++ s.entries := by
  rw [recorded, steps_push ho.limit hb, List.flatMap_append, List.flatMap_singleton, recorded]

/-- What is recorded, the open batch apart. -/
theorem recorded_of_batch {s : Step} (hb : h.batch = some s) :
    h.recorded = ({ h with batch := none } : History).recorded ++ s.entries := by
  simp [recorded, steps, hb]

theorem Orderly.withBatch (ho : h.Orderly) {batch : Option Step}
    (hbatch : ∀ s, batch = some s → s.Matched) : ({ h with batch := batch } : History).Orderly where
  limit := ho.limit
  matched := by
    have hpast := (List.forall_mem_append.mp ho.matched).1
    refine List.forall_mem_append.mpr ⟨hpast, fun s hs => ?_⟩
    exact hbatch s (Option.mem_toList.mp hs)

theorem Orderly.matched_batch (ho : h.Orderly) {s : Step} (hb : h.batch = some s) : s.Matched :=
  ho.matched s (List.mem_append_right _ (by rw [hb]; exact List.mem_singleton_self s))

/-- **An edit that is recorded comes last.** -/
theorem recorded_note (ho : h.Orderly) (e inv : Edit) :
    (h.note e inv).recorded = h.recorded ++ [(e, inv)] ∧ (h.note e inv).Orderly := by
  rw [note]
  cases hb : h.batch with
  | none =>
      exact ⟨recorded_push ho hb _, ho.push hb (Step.matched_single e inv)⟩
  | some s =>
      have hs := ho.matched_batch hb
      refine ⟨?_, ho.withBatch ?_⟩
      · rw [recorded_of_batch rfl, hs.entries_add, recorded_of_batch hb, List.append_assoc]
      · rintro _ ⟨⟩
        exact hs.add e inv

theorem recorded_closeBatch (ho : h.Orderly) :
    h.closeBatch.recorded = h.recorded ∧ h.closeBatch.Orderly := by
  rw [closeBatch]
  cases hb : h.batch with
  | none => exact ⟨rfl, ho⟩
  | some s =>
      have hs := ho.matched_batch hb
      have hclosed : ({ h with batch := none } : History).Orderly :=
        ho.withBatch fun _ he => by cases he
      simp only [pushUnlessEmpty]
      -- an empty batch is dropped, but it has no entries
      by_cases hempty : s.edits.isEmpty = true
      · rw [if_pos hempty]
        have hnone : s.entries = [] := by
          rw [List.isEmpty_iff] at hempty
          rw [Step.entries, hempty, List.zip_nil_left]
        rw [recorded_of_batch hb, hnone, List.append_nil]
        exact ⟨rfl, hclosed⟩
      · rw [if_neg hempty, recorded_of_batch hb]
        exact ⟨recorded_push hclosed rfl s, hclosed.push rfl hs⟩

/-- **To open a batch is to drop what an open one holds**, and to record nothing. -/
theorem balanced_openBatch (ho : h.Orderly) (description : String) :
    Balanced h.recorded (h.openBatch description) (h.batch.elim 0 fun s => s.edits.length) ∧
      (h.openBatch description).Orderly := by
  have hopened : (h.openBatch description).Orderly := ho.withBatch fun s hs => by
    rw [← Option.some.inj hs]
    exact Step.matched_described description
  have hrecorded : (h.openBatch description).recorded =
      ({ h with batch := none } : History).recorded := by
    rw [openBatch, recorded_of_batch rfl, Step.entries_described, List.append_nil]
  refine ⟨?_, hopened⟩
  cases hb : h.batch with
  | none => exact .of_eq (by rw [hrecorded, ← hb])
  | some s =>
      have hlength := (ho.matched_batch hb).length_entries
      have hbefore := recorded_of_batch hb
      refine ⟨?_, ?_⟩
      · rw [hrecorded, hbefore]
        exact List.sublist_append_left _ _
      · rw [hrecorded, hbefore, List.length_append, hlength]
        rfl

/-- **One call balances the books.** -/
theorem balanced_call (ho : h.Orderly) (c : Call) :
    Balanced (h.recorded ++ h.made c) (h.call c) (h.lost c) ∧ (h.call c).Orderly := by
  cases c with
  | edit e page =>
      rw [call, made, lost]
      -- whether an edit is made depends on the page alone, where it goes on the open batch
      rcases h.applyTo_cases e page with ⟨fault, hf⟩ | ⟨inv, page', hinv, _, hmade⟩
      · rw [hf]
        exact ⟨.of_eq (List.append_nil _).symm, ho⟩
      · obtain ⟨hrecorded, hnoted⟩ := recorded_note ho e inv
        rw [hmade, hinv]
        exact ⟨.of_eq hrecorded, hnoted⟩
  | openBatch description =>
      rw [call, made, lost, List.append_nil]
      exact balanced_openBatch ho description
  | closeBatch =>
      obtain ⟨hrecorded, hclosed⟩ := recorded_closeBatch ho
      rw [call, made, lost, List.append_nil]
      exact ⟨.of_eq hrecorded, hclosed⟩

/-! ## 4. All calls -/

/-- **Calls in turn balance the books.** -/
theorem balanced_callAll (ho : h.Orderly) (cs : List Call) :
    Balanced (h.recorded ++ h.madeAll cs) (h.callAll cs) (h.lostAll cs) ∧
      (h.callAll cs).Orderly := by
  induction cs generalizing h with
  | nil => exact ⟨.of_eq (List.append_nil _).symm, ho⟩
  | cons c cs ih =>
      obtain ⟨hcall, hnext⟩ := balanced_call ho c
      obtain ⟨hrest, hlast⟩ := ih hnext
      rw [madeAll, ← List.append_assoc]
      exact ⟨hcall.trans hrest, hlast⟩

/-- **A history holds what was made, exactly as long as nothing is dropped.** Of a history without
    a greatest number of steps, edits and the two ends of batches are asked in any order, each edit
    on any page. Then

    * each step, and the open batch, holds its edits in order and their inverses from the last to
      the first;
    * what all of them hold, the oldest first, comes in the order in which it was made;
    * it is less than what was made by as many edits as were in batches that were open when another
      was opened; so it is all that was made exactly if there were none. -/
theorem recorded_callAll (cs : List Call) :
    let h := (empty 0).callAll cs
    (∀ s ∈ h.steps, s.edits = s.entries.map Prod.fst ∧
        s.inverses = (s.entries.map Prod.snd).reverse) ∧
      h.recorded.Sublist ((empty 0).madeAll cs) ∧
      ((empty 0).madeAll cs).length = h.recorded.length + (empty 0).lostAll cs ∧
      (h.recorded = (empty 0).madeAll cs ↔ (empty 0).lostAll cs = 0) := by
  intro h
  obtain ⟨hbalanced, horderly⟩ := balanced_callAll orderly_empty cs
  have hbooks : Balanced ((empty 0).madeAll cs) h ((empty 0).lostAll cs) := hbalanced
  exact ⟨fun s hs => (horderly.matched s hs).of_entries, hbooks.kept, hbooks.count,
    hbooks.recorded_eq_iff⟩

/-- A batch is opened, an edit is made, and another batch is opened. -/
def overlapping : List Call :=
  [.openBatch "rename", .edit (colour "red") heading, .openBatch "rename"]

/-- **A batch that is opened within another drops what the other one holds.** -/
theorem recorded_overlapping :
    ¬ ∀ cs : List Call, ((empty 0).callAll cs).recorded = (empty 0).madeAll cs := by
  intro h
  have hlength := congrArg List.length (h overlapping)
  have hmade : ((empty 0).madeAll overlapping).length = 1 := rfl
  rw [hmade] at hlength
  cases hlength

end History

end Pagewright
