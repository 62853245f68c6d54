import Mathlib.Data.Multiset.AddSub
import Pagewright.Proofs.Editor.Checking
import Pagewright.Proofs.Page.Preorder

/-!
# No node is lost and none is doubled

The nodes of a page are counted (`Forest.census`), each told by its own id, tag, attributes and
text. Every edit has a balance (`Edit.Balances`): on the page after is what was there before, with
what the edit brings in and without what it takes out.

* `census_detach`, `census_attach`, `census_modifyLabel` -- the balance of each change at a place,
  also where ids are on the page twice;
* `Edit.keeps_balance` -- **every edit that is made keeps its balance**, and so ids that are distinct
  stay distinct.
-/

namespace Pagewright

/-! ## 1. Counting -/

namespace Forest

/-- The nodes of a page with their numbers, each told by its label. -/
def census (ns : Forest) : Multiset Label := labels ns

variable {ns ms rest as bs : Forest} {id : String} {t : Node}

theorem census_eq_iff : census ns = census ms ↔ (labels ns).Perm (labels ms) :=
  Multiset.coe_eq_coe

theorem census_eq_add_iff :
    census ns = census as + census bs ↔ (labels ns).Perm (labels as ++ labels bs) := by
  rw [census, census, census, Multiset.coe_add, Multiset.coe_eq_coe]

theorem census_detach (h : ns.detach id = .ok (t, rest)) :
    ns.first id = some t ∧ census ns = census [t] + census rest := by
  obtain ⟨p, hp, ht⟩ := exists_of_detach h
  exact ⟨first_of_pathOf hp (nodeAt_of_takeAt ht), census_eq_add_iff.mpr (labels_takeAt ht)⟩

theorem census_attach {parent : Option String} {k : Nat} (h : ns.attach parent k t = .ok ms) :
    census ms = census [t] + census ns :=
  census_eq_add_iff.mpr (labels_attach h)

/-- One node has another label, and all others are as before. -/
theorem census_modifyLabel {f : Label → Label} (h : ns.modifyLabel id f = .ok ms) :
    ∃ n others, ns.first id = some n ∧ census ns = n.label ::ₘ others ∧
      census ms = f n.label ::ₘ others := by
  obtain ⟨p, hp, hm⟩ := exists_of_modifyLabel h
  obtain ⟨n, hn, _⟩ := nodeAt_of_pathOf hp
  obtain ⟨before, after, hns, hms⟩ :=
    labels_modifyAt (f := fun n => ⟨f n.label, n.list⟩) hn rfl hm
  refine ⟨n, (before ++ after : List Label), first_of_pathOf hp hn, ?_, ?_⟩
  · rw [census, hns, Multiset.cons_coe, Multiset.coe_eq_coe]
    exact List.perm_middle
  · rw [census, hms, Multiset.cons_coe, Multiset.coe_eq_coe]
    exact List.perm_middle

end Forest

/-! ## 2. Edits -/

namespace Edit

open Forest

/-- The nodes on the page after an edit, told by those before: a new tag comes in with all its
    nodes, a move keeps every node, a removal takes out the nodes of the first tag with the id, and
    an attribute or a text is set on the first tag with the id. -/
def Balances (page page' : Forest) : Edit → Prop
  | insert _ _ tag => census page' = census [tag] + census page
  | move _ _ _ => census page' = census page
  | remove id => ∃ n, page.first id = some n ∧ census page = census [n] + census page'
  | setAttribute id name value =>
      ∃ n others, page.first id = some n ∧ census page = n.label ::ₘ others ∧
        census page' = n.label.setAttribute name value ::ₘ others
  | setText id text =>
      ∃ n others, page.first id = some n ∧ census page = n.label ::ₘ others ∧
        census page' = { n.label with text := some text } ::ₘ others
  | replacePage nodes => census page' = census nodes

variable {page page' : Forest} {e : Edit}

theorem balances_of_perform (h : perform page e = .ok page') : e.Balances page page' := by
  cases e with
  | insert parent k tag => exact census_attach h
  | move id parent k =>
      obtain ⟨t, rest, hd, ha⟩ := perform_move h
      calc census page' = census [t] + census rest := census_attach ha
        _ = census page := (census_detach hd).2.symm
  | remove id =>
      obtain ⟨t, hd⟩ := perform_remove h
      exact ⟨t, census_detach hd⟩
  | setAttribute id name value => exact census_modifyLabel (f := (·.setAttribute name value)) h
  | setText id text => exact census_modifyLabel (f := fun l => { l with text := some text }) h
  | replacePage nodes =>
      cases h
      rfl

/-- **No node is lost and none is doubled.** On every page, whatever ids it has, an edit that
    applies, or is made again from the history, keeps its balance. So where the ids of the page are
    distinct, and those of what the edit brings in, the ids of the page after are distinct. -/
theorem keeps_balance (h : e.apply page = .ok page' ∨ e.restore page = .ok page') :
    e.Balances page page' ∧
      ((Forest.ids page).Nodup → e.Brings (fun ns => (Forest.ids ns).Nodup) →
        (Forest.ids page').Nodup) := by
  have hmade : e.restore page = .ok page' := h.elim restore_of_apply fun h => h
  obtain ⟨hcheck, hperform⟩ := (restore_eq_ok_iff e page page').mp hmade
  refine ⟨balances_of_perform hperform, fun hpage hbrings => ?_⟩
  exact perform_of_severable Partible.distinct.severable hpage hbrings hcheck hperform

/-- On a page with an id twice, the note is moved to the top level, and the first of the twins goes
    with all its nodes. Once it is gone, the ids are distinct, and a new tag leaves them so. -/
theorem keeps_balance_crowded :
    (∃ page', (move "note" none 0).apply crowded = .ok page' ∧ census page' = census crowded) ∧
      (∃ page', (remove "twin").restore crowded = .ok page' ∧
        ∃ n, crowded.first "twin" = some n ∧ census crowded = census [n] + census page') ∧
      ∃ page', (insert none 0 ((Node.ofTag "p").withId "new")).apply crowded.tail = .ok page' ∧
        (Forest.ids page').Nodup := by
  have hmove : (move "note" none 0).apply crowded = .ok _ := rfl
  have hremove : (remove "twin").restore crowded = .ok _ := rfl
  have hinsert : (insert none 0 ((Node.ofTag "p").withId "new")).apply crowded.tail = .ok _ :=
    rfl
  have hbrings : (Forest.ids [(Node.ofTag "p").withId "new"]).Nodup := by decide
  exact ⟨⟨_, hmove, (keeps_balance (Or.inl hmove)).1⟩,
    ⟨_, hremove, (keeps_balance (Or.inr hremove)).1⟩,
    ⟨_, hinsert, (keeps_balance (Or.inl hinsert)).2 (by decide) hbrings⟩⟩

end Edit

end Pagewright
