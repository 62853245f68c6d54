import Pagewright.Proofs.Editor.AllOrNothing

/-!
# What is selected

A session remembers what is selected by an id, and looks after it only where a tag may leave the
page. This file says that this is enough.

* `Session.Tracks` -- what becomes of the selection: it stays with all ids of the page, or it is
  looked up on the page that there is then;
* `Session.tracks_perform` -- **every operation but the two that select tracks the selection**, on a
  page with distinct ids: an edit that takes ids off the page is followed by a look. A removal of
  several tags that fails looks nothing up, but has put back what it took away;
* `Session.Anchored` -- what is selected is on the page; `Session.anchored_trail`: so it is **along
  every run on pages with distinct ids**;
* `Session.selected_trail` -- what this says of the tag that is selected.
-/

namespace Pagewright

open Forest

/-! ## 1. One operation -/

/-- Whether an operation says itself what is selected. -/
def Operation.selects : Operation → Bool
  | .select _ | .clearSelection => true
  | _ => false

namespace Session

variable {σ : Type} {s s' : Session σ}

/-- What is selected is on the page. -/
def Anchored (s : Session σ) : Prop := ∀ id, s.selected = some id → id ∈ Forest.ids s.page

/-- What becomes of the selection: it stays, and so do all ids; or it is looked up on the page that
    there is then. -/
inductive Tracks (s : Session σ) : Session σ → Prop where
  | stays {s' : Session σ} (selected : s'.selected = s.selected)
      (page : Forest.ids s.page ⊆ Forest.ids s'.page) : Tracks s s'
  | looksUp {s' : Session σ} (selected : s'.selected = s.selected) : Tracks s s'.syncSelection

theorem selected_syncSelection (s : Session σ) :
    s.syncSelection.selected = s.selected.filter (Forest.contains · s.page) := by
  rw [syncSelection_eq]

namespace Tracks

/-- **The selection stays, or is dropped with a tag that is gone.** -/
theorem stays_or_drops (h : s.Tracks s') : s'.selected = s.selected ∨
    ∃ id, s.selected = some id ∧ s'.selected = none ∧ id ∉ Forest.ids s'.page := by
  cases h with
  | stays selected page => exact .inl selected
  | @looksUp s' selected =>
      rw [selected_syncSelection, selected, page_syncSelection]
      cases hid : s.selected with
      | none => exact .inl rfl
      | some id =>
          have hcontains := contains_iff_mem_ids id s'.page
          rw [Option.filter_some]
          by_cases h : id ∈ Forest.ids s'.page
          · exact .inl (if_pos (hcontains.mpr h))
          · exact .inr ⟨id, rfl, if_neg (mt hcontains.mp h), h⟩

theorem anchored (h : s.Tracks s') (hs : s.Anchored) : s'.Anchored := by
  intro id hid
  cases h with
  | stays selected page => exact page (hs id (selected.symm.trans hid))
  | @looksUp s' selected =>
      rw [selected_syncSelection, Option.filter_eq_some_iff, contains_iff_mem_ids] at hid
      rw [page_syncSelection]
      exact hid.2

theorem of_page_eq (selected : s'.selected = s.selected) (page : s'.page = s.page) :
    s.Tracks s' :=
  .stays selected (page ▸ List.Subset.refl _)

end Tracks

/-- What an operation comes to tracks the selection, or says itself what is selected. -/
theorem tracks_of_ways {op : Operation} {o : Outcome σ Unit} (h : s.Ways op o) :
    s.Tracks o.2 ∨ op.selects = true ∧ o.2.Anchored := by
  cases h with
  | fails e ids => exact .inl (.of_page_eq rfl rfl)
  | selects asked there =>
      refine .inr ⟨by rw [asked]; rfl, ?_⟩
      rintro _ ⟨⟩
      exact there
  | clears asked => exact .inr ⟨by rw [asked]; rfl, fun id hid => nomatch hid⟩
  | drags asked drag => exact .inl (.of_page_eq rfl rfl)
  | edits ids keeps made =>
      obtain ⟨_, _, happly, _⟩ := History.apply_eq_ok made
      have hperform := ((Edit.apply_eq_ok_iff _ _ _).mp happly).2
      exact .inl (.stays rfl (Edit.ids_subset_of_perform keeps hperform))
  | cuts e ids made => exact .inl (.looksUp rfl)
  | rests => exact .inl (.looksUp rfl)
  | back undone => exact .inl (.looksUp rfl)
  | forth redone => exact .inl (.looksUp rfl)

/-- The removal of several tags looks the selection up, or has put back what it took away. -/
theorem tracks_removeTags (hb : s.history.batch = none) (hd : (Forest.ids s.page).Nodup)
    (ids : List String) : s.Tracks (s.removeTags ids).2 := by
  rcases removeTags_cases hb ids with ⟨_, _, hsame⟩ | ⟨step, page, _, h⟩
  · -- the roll-back has left nothing to look up
    rw [hsame hd]
    exact .of_page_eq rfl rfl
  · rw [h]
    exact .looksUp rfl

section Perform

variable [IdSource σ]

/-- **What becomes of the selection** with any operation, on a page with distinct ids. -/
theorem tracks_perform (hb : s.history.batch = none) (hd : (Forest.ids s.page).Nodup)
    (op : Operation) :
    s.Tracks (s.perform op).2 ∨ op.selects = true ∧ (s.perform op).2.Anchored := by
  by_cases hremoves : ∃ ids, op = .removeTags ids
  · obtain ⟨ids, rfl⟩ := hremoves
    exact .inl (tracks_removeTags hb hd ids)
  · exact tracks_of_ways (s.perform_ways fun ids e => hremoves ⟨ids, e⟩)

/-! ## 2. Runs -/

/-- **One operation keeps the selection on the page.** -/
theorem Anchored.perform (hs : s.Anchored) (hb : s.history.batch = none)
    (hd : (Forest.ids s.page).Nodup) (op : Operation) : (s.perform op).2.Anchored := by
  rcases tracks_perform hb hd op with htracks | ⟨_, hselects⟩
  · exact htracks.anchored hs
  · exact hselects

/-- **Along every run on pages with distinct ids, what is selected is on the page.** -/
theorem anchored_trail (hs : s.Anchored) (hb : s.history.batch = none) (ops : List Operation)
    (hd : ∀ s' ∈ s.trail ops, (Forest.ids s'.page).Nodup) : ∀ s' ∈ s.trail ops, s'.Anchored := by
  induction ops generalizing s with
  | nil =>
      rw [trail, List.forall_mem_singleton]
      exact hs
  | cons op ops ih =>
      rw [trail, List.forall_mem_cons] at hd
      rw [trail, List.forall_mem_cons]
      exact ⟨hs, ih (hs.perform hb hd.1 op) (batch_perform hb op) hd.2⟩

end Perform

/-- What is selected and on the page is one tag, where ids are distinct. -/
theorem Anchored.exists_selectedNode (hs : s.Anchored) (hd : (Forest.ids s.page).Nodup)
    {id : String} (hid : s.selected = some id) :
    ∃ path n, s.page.nodeAt path = some n ∧ n.ident = some id ∧ s.selectedNode = some n ∧
      ∀ other m, s.page.nodeAt other = some m → m.ident = some id → other = path := by
  obtain ⟨path, hpath⟩ := exists_pathOf (hs id hid)
  obtain ⟨n, _, _, _, hn, hident, hfind⟩ := find_of_pathOf hpath
  refine ⟨path, n, hn, hident, ?_, fun other m hm hmid => eq_of_ident_eq hd hm hmid hn hident⟩
  rw [selectedNode, hid, Option.bind_some, hfind]
  rfl

/-- **The selection never dangles.** A page is opened, with any source of ids, and operations are
    done in turn, failures included, while no id is on the page twice. Then on the way

    * what is selected is the id of one tag on the page, which is the tag that is selected;
    * every operation but the two that select leaves the selection, or drops it because no tag on
      the page after has its id. -/
theorem selected_trail [IdSource σ] (page : Forest) (options : EditorOptions) (source : σ)
    (ops : List Operation)
    (hd : ∀ s ∈ (ofPage page options source).trail ops, (Forest.ids s.page).Nodup) :
    ∀ s ∈ (ofPage page options source).trail ops,
      (∀ id, s.selected = some id → ∃ path n, s.page.nodeAt path = some n ∧ n.ident = some id ∧
        s.selectedNode = some n ∧
        ∀ other m, s.page.nodeAt other = some m → m.ident = some id → other = path) ∧
      ∀ op : Operation, op.selects = false →
        (s.perform op).2.selected = s.selected ∨
          ∃ id, s.selected = some id ∧ (s.perform op).2.selected = none ∧
            id ∉ Forest.ids (s.perform op).2.page := by
  intro s hs
  have hopened : (ofPage page options source).Anchored := fun id hid => nomatch hid
  have hanchored := anchored_trail hopened rfl ops hd s hs
  have hb := batch_trail (s := ofPage page options source) rfl ops s hs
  refine ⟨fun id hid => hanchored.exists_selectedNode (hd s hs) hid, fun op hop => ?_⟩
  rcases tracks_perform hb (hd s hs) op with htracks | ⟨hselects, _⟩
  · exact htracks.stays_or_drops
  · rw [hop] at hselects
    cases hselects

/-- The inner one of two tags is selected. Another is put beside it, a removal fails and is taken
    back, and then the outer tag is removed; that is undone. -/
def clicks : List Operation :=
  [.select "note", .addTag (.ofTag "p") (some "box") .inside, .removeTags ["note", "missing"],
    .removeTag "box", .undo]

/-- The selection stays until its tag is gone, and does not come back with it. -/
theorem selected_clicks :
    ((ofPage nested .standard Numbering.fresh).trail clicks).map Session.selected =
        [none, some "note", some "note", some "note", none, none] ∧
      (∀ s ∈ (ofPage nested .standard Numbering.fresh).trail clicks,
        (Forest.ids s.page).Nodup) ∧
      ∀ s ∈ (ofPage nested .standard Numbering.fresh).trail clicks, ∀ id, s.selected = some id →
        ∃ path n, s.page.nodeAt path = some n ∧ n.ident = some id ∧ s.selectedNode = some n := by
  have hd : ∀ s ∈ (ofPage nested .standard Numbering.fresh).trail clicks,
      (Forest.ids s.page).Nodup := by decide +kernel
  refine ⟨by decide +kernel, hd, fun s hs id hid => ?_⟩
  obtain ⟨path, n, hn, hident, hselected, _⟩ :=
    (selected_trail nested .standard Numbering.fresh clicks hd s hs).1 id hid
  exact ⟨path, n, hn, hident, hselected⟩

end Session

end Pagewright
