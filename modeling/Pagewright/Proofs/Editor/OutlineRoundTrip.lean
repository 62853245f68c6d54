import Pagewright.Editor.Outline
import Pagewright.Proofs.Page.RoundTrip
import Pagewright.Proofs.Page.Shedding

/-!
# The outline loses nothing

The rows of a page go to the tree widget as JSON and come back as JSON. On this way

* every row reads as what was written, with the rows below it (`Outline.listOfJson_toItems`);
* the page that is rebuilt from the rows has the same labels in the same places, and the same lists
  of children but for empty ones, which may be gone (`Forest.Sheds`): a tag with an empty list has
  no rows below it, as one with no list has none;
* within a folded text nothing changes at all, since the row carries it whole.

`Forest.outline_returns` puts the two together. A page without empty lists comes back as it was.
-/

namespace Pagewright

open Json (readFields eq_readFields readFields_cons readFields_append readFields_optionalField)

/-! ## 1. Rows as JSON and back -/

namespace RowDraft

theorem fill_eq (d : RowDraft) (ms : List (String × Json)) :
    RowDraft.fill d ms = readFields RowDraft.putField d ms :=
  eq_readFields (fun _ => by rw [RowDraft.fill])
    (fun _ _ _ _ _ hput => by rw [RowDraft.fill, hput])
    (fun _ _ _ _ _ hput => by rw [RowDraft.fill, hput]) d ms

theorem putField_children {items : List Json} {os : List Outline} (d : RowDraft)
    (h : Outline.ofItems items = .ok os) :
    RowDraft.putField d "children" (.arr items) = .ok { d with children := os } := by
  rw [RowDraft.putField, if_pos rfl, h]

theorem asOptionalNode_toJson (n : Node) : asOptionalNode n.toJson = .ok (some n) := by
  obtain ⟨ms, hms⟩ := n.toJson_eq_obj
  rw [hms, asOptionalNode, ← hms, n.ofJson_toJson, Except.map]
  intro hnull
  cases hnull

/-- The node that a row carries is an object, so it is never taken for a list of rows. -/
theorem putField_toJson (d : RowDraft) (name : String) (n : Node) :
    RowDraft.putField d name n.toJson = d.putPlain name n.toJson := by
  obtain ⟨ms, hms⟩ := n.toJson_eq_obj
  rw [hms, RowDraft.putField]
  intro items hitems
  cases hitems

theorem putField_tag (d : RowDraft) (n : Node) :
    RowDraft.putField d "tag" n.toJson = .ok { d with source := some n } := by
  rw [putField_toJson, putPlain, n.ofJson_toJson]
  rfl

theorem putField_folded (d : RowDraft) (n : Node) :
    RowDraft.putField d "collapsedText" n.toJson = .ok { d with folded := some n } := by
  rw [putField_toJson, putPlain, asOptionalNode_toJson]
  rfl

end RowDraft

/-- A row reads as itself where the rows below it do. -/
theorem Outline.ofJson_toJson_of_children {r : Row} {os : List Outline}
    (below : Outline.ofItems (Outline.toItems os) = .ok os) :
    Outline.ofJson (Outline.toJson ⟨r, os⟩) = .ok ⟨r, os⟩ := by
  obtain ⟨title, subtitle, expanded, id, selected, source, folded⟩ := r
  have htitle : RowDraft.putField .empty "title" (.str title) =
      .ok ⟨some title, none, [], none, none, none, none, none⟩ := rfl
  have hsubtitle : readFields RowDraft.putField ⟨some title, none, [], none, none, none, none, none⟩
      (optionalField "subtitle" (subtitle.map .str)) =
        .ok ⟨some title, subtitle, [], none, none, none, none, none⟩ :=
    readFields_optionalField (by rintro rfl; rfl) (by rintro _ rfl; rfl)
  have hexpanded : RowDraft.putField ⟨some title, subtitle, os, none, none, none, none, none⟩
      "expanded" (.bool expanded) =
        .ok ⟨some title, subtitle, os, some expanded, none, none, none, none⟩ := rfl
  have hid : RowDraft.putField ⟨some title, subtitle, os, some expanded, none, none, none, none⟩
      "id" (.str id) =
        .ok ⟨some title, subtitle, os, some expanded, some id, none, none, none⟩ := rfl
  have hselected : RowDraft.putField
      ⟨some title, subtitle, os, some expanded, some id, none, none, none⟩
      "selected" (.bool selected) =
        .ok ⟨some title, subtitle, os, some expanded, some id, some selected, none, none⟩ := rfl
  have hfolded : readFields RowDraft.putField
      ⟨some title, subtitle, os, some expanded, some id, some selected, some source, none⟩
      (optionalField "collapsedText" (folded.map Node.toJson)) =
        .ok ⟨some title, subtitle, os, some expanded, some id, some selected, some source,
          folded⟩ :=
    readFields_optionalField (by rintro rfl; rfl)
      (by rintro n rfl; exact RowDraft.putField_folded _ n)
  rw [Outline.toJson, Outline.ofJson, RowDraft.fill_eq, List.append_assoc, List.append_assoc,
    List.singleton_append, readFields_cons htitle, readFields_append hsubtitle]
  simp only [List.cons_append, List.nil_append]
  rw [readFields_cons (RowDraft.putField_children _ below), readFields_cons hexpanded,
    readFields_cons hid, readFields_cons hselected, readFields_cons (RowDraft.putField_tag _ source),
    hfolded]
  rfl

mutual

/-- **A row reads as what was written**, with the rows below it. -/
theorem Outline.ofJson_toJson : ∀ o : Outline, Outline.ofJson o.toJson = .ok o
  | ⟨_, os⟩ => Outline.ofJson_toJson_of_children (Outline.ofItems_toItems os)

theorem Outline.ofItems_toItems : ∀ os : List Outline,
    Outline.ofItems (Outline.toItems os) = .ok os
  | [] => by rw [Outline.toItems, Outline.ofItems]
  | o :: os => by
      rw [Outline.toItems, Outline.ofItems, Outline.ofJson_toJson o, Outline.ofItems_toItems os]

end

/-- **A list of rows reads as what was written.** -/
theorem Outline.listOfJson_toItems (os : List Outline) :
    Outline.listOfJson (.arr (Outline.toItems os)) = .ok os :=
  Outline.ofItems_toItems os

/-! ## 2. From the page to rows and back -/

namespace Forest

/-- A node comes back from its row where its children come back from theirs. -/
theorem sheds_cons_outline {n : Node} {ns ms : Forest} (selected : Option String)
    (below : Sheds n.children (Outline.forest (outline selected n.children)))
    (rest : Sheds ns ms) : Sheds (n :: ns) ((n.outline selected).node :: ms) := by
  rcases n with ⟨l, _ | _ | ⟨⟨fl, fcs⟩, cs⟩⟩
  · exact .cons rfl (Or.inl rfl) .nil rest
  · exact .cons rfl (Or.inr ⟨rfl, rfl⟩) .nil rest
  · simp only [Node.children_mk, Option.getD_some, outline, Outline.forest] at below
    by_cases htext : fl.isText = true
    · -- The first child is carried whole, so only the others went through rows.
      have hnode : (Node.outline selected ⟨l, some (⟨fl, fcs⟩ :: cs)⟩).node =
          ⟨l, some (⟨fl, fcs⟩ :: Outline.forest (outline selected cs))⟩ := by
        rw [Node.outline, if_pos htext]
        rfl
      rw [hnode]
      cases below with
      | cons _ _ _ hcs => exact .cons rfl (Or.inl rfl) (.cons rfl (Or.inl rfl) (.refl _) hcs) rest
    · have hnode : (Node.outline selected ⟨l, some (⟨fl, fcs⟩ :: cs)⟩).node =
          ⟨l, some ((Node.outline selected ⟨fl, fcs⟩).node ::
            Outline.forest (outline selected cs))⟩ := by
        rw [Node.outline, if_neg htext]
        rfl
      rw [hnode]
      exact .cons rfl (Or.inl rfl) below rest

/-- The page that is rebuilt from the rows of a page has shed empty lists at most. -/
theorem sheds_outline (selected : Option String) (page : Forest) :
    Sheds page (Outline.forest (outline selected page)) := by
  induction page using Forest.induct with
  | nil =>
      rw [outline, Outline.forest]
      exact .nil
  | cons n ns below rest =>
      rw [outline, Outline.forest]
      exact sheds_cons_outline selected below rest

/-- **The outline loses nothing.** The rows of a page, written as JSON and read again, are rows
    from which the page comes back: with all labels and places, and with its lists of children but
    for empty ones that may be gone; exactly as it was where it has none that is empty. -/
theorem outline_returns (page : Forest) (selected : Option String) :
    ∃ rows, Outline.listOfJson (.arr (Outline.toItems (outline selected page))) = .ok rows ∧
      Sheds page (Outline.forest rows) ∧ (page.Full → Outline.forest rows = page) := by
  have hsheds := sheds_outline selected page
  exact ⟨_, Outline.listOfJson_toItems _, hsheds, hsheds.eq_of_full⟩

/-- A list with two literal texts in front, the first of which has something below it. -/
def listing : Forest :=
  [⟨⟨some "list", "ul", none, none⟩, some
    [⟨⟨some "lead", "text", none, some "Three things"⟩, some [.ofTag "b"]⟩, .ofText "to do",
      ⟨⟨some "item", "li", some ⟨[("hidden", .null)], by decide⟩, none⟩, some [.ofText "first"]⟩]⟩]

/-- This list comes back as it was, the texts that were folded away included. -/
theorem listing_returns : listing.Full ∧
    ∃ rows, Outline.listOfJson (.arr (Outline.toItems (outline (some "item") listing))) =
      .ok rows ∧ Outline.forest rows = listing := by
  have hfull : listing.Full := by
    simp [Full, listing, Node.ofTag, Node.ofText]
  obtain ⟨rows, hrows, _, hexact⟩ := outline_returns listing (some "item")
  exact ⟨hfull, rows, hrows, hexact hfull⟩

end Forest

end Pagewright
