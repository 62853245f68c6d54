import Pagewright.Page.Record
import Pagewright.Proofs.Editor.Timeline
import Pagewright.Proofs.Markup.Meaning

/-!
# Undoing keeps the form of a page

An edit that is undone leaves a page like the one before (`Edit.restore_inverse`). This file says
when it leaves the same page, so that the same text is saved, and what else it leaves.

* `Label.KeepsAttributes` -- where attributes are as before when one of them was set and set back:
  they were not there and empty, and if one was taken out it was the last;
* `Edit.KeepsForm` -- where an edit is undone without a trace: what it sets is set back so, and the
  parent to which it brings a tag has no list of children that is there and empty;
* `Edit.eq_of_restore_inverse` -- **such an edit is undone exactly**;
* `Edit.modifyLabel_of_setText`, `Edit.modifyLabel_of_setAttribute` -- to set a text or an attribute
  and undo it is one change of one label; it writes an absent text out, and drops attributes that
  were there and empty;
* `Draft.compile_undo` -- **the source is the same in any case**.
-/

namespace Pagewright

open Forest

/-! ## 1. Attributes -/

namespace Attributes

variable {a : Attributes} {name : String}

theorem isEmpty_iff : a.isEmpty = true ↔ a = .empty := by
  rw [isEmpty, List.isEmpty_iff]
  exact ⟨fun h => ext h, fun h => by rw [h]; rfl⟩

theorem not_mem_of_find (h : a.find name = none) : name ∉ Members.names a.entries :=
  (Members.find_eq_none_iff name a.entries).mp h

/-- A value is written over and back. -/
theorem put_put_of_find {w : Json} (h : a.find name = some w) (v : Json) :
    (a.put name v).put name w = a :=
  ext ((Members.put_put name w v a.entries).trans (Members.put_of_find h))

/-- A new name goes last, and is taken out there. -/
theorem erase_put_of_find (h : a.find name = none) (v : Json) : (a.put name v).erase name = a := by
  apply ext
  show Members.erase name (Members.put name v a.entries) = a.entries
  rw [Members.put_of_not_mem v (not_mem_of_find h), Members.erase_concat v (not_mem_of_find h)]

theorem erase_of_find (h : a.find name = none) : a.erase name = a :=
  ext (Members.erase_of_not_mem (not_mem_of_find h))

/-- The last name is taken out, and goes last again. -/
theorem put_erase_of_last {w : Json} (h : a.find name = some w)
    (hlast : name ∉ a.names.dropLast) : (a.erase name).put name w = a := by
  have hmem := (Members.find_eq_some_iff a.distinct name w).mp h
  obtain ⟨init, last, hentries⟩ := List.eq_nil_or_concat a.entries |>.resolve_left
    (List.ne_nil_of_mem hmem)
  rw [List.concat_eq_append] at hentries
  have hinit : name ∉ Members.names init := by
    rw [names, hentries, Members.names, List.map_append, List.map_singleton,
      List.dropLast_concat] at hlast
    exact hlast
  have hpair : last = (name, w) := by
    rw [hentries] at hmem
    rcases List.mem_append.mp hmem with hin | hin
    · exact absurd (List.mem_map_of_mem hin) hinit
    · exact (List.mem_singleton.mp hin).symm
  apply ext
  show Members.put name w (Members.erase name a.entries) = a.entries
  rw [hentries, hpair, Members.erase_concat w hinit, Members.put_of_not_mem w hinit]

end Attributes

namespace Label

/-- Attributes are as before when this one was set and set back. -/
structure KeepsAttributes (l : Label) (name : String) (value : Option Json) : Prop where
  given : l.attr ≠ some .empty
  last : value = none → ∀ a, l.attr = some a → name ∉ a.names.dropLast

/-- The label with its text written out. -/
def writeText (l : Label) : Label := { l with text := some l.textContent }

/-- The label without attributes. -/
def dropAttributes (l : Label) : Label := { l with attr := none }

/-- **Setting an attribute back** leaves the same label, where it keeps the attributes. -/
theorem setAttribute_setAttribute {l : Label} {name : String} {value : Option Json}
    (h : l.KeepsAttributes name value) :
    (l.setAttribute name value).setAttribute name (l.valueOf name) = l := by
  obtain ⟨hgiven, hlast⟩ := h
  rcases l with ⟨id, tag, _ | a, text⟩
  · cases value with
    | none => rfl
    | some v => simp [setAttribute, putAttribute, eraseAttribute, valueOf, Attributes.empty,
        Attributes.put, Attributes.erase, Attributes.isEmpty, Members.put, Members.erase,
        Members.lastToFront]
  · have hne : ¬ a.isEmpty = true := fun e => hgiven (by rw [Attributes.isEmpty_iff.mp e])
    have hvalue : valueOf ⟨id, tag, some a, text⟩ name = a.find name := rfl
    rw [hvalue]
    cases hfind : a.find name with
    | none =>
        cases value with
        | none =>
            simp only [setAttribute, eraseAttribute, Attributes.erase_of_find hfind, if_neg hne]
        | some v =>
            simp only [setAttribute, putAttribute, eraseAttribute, Option.getD_some,
              Attributes.erase_put_of_find hfind, if_neg hne]
    | some w =>
        cases value with
        | none =>
            have hback := Attributes.put_erase_of_last hfind (hlast rfl a rfl)
            by_cases hempty : (a.erase name).isEmpty = true
            · rw [Attributes.isEmpty_iff.mp hempty] at hback
              simp only [setAttribute, putAttribute, eraseAttribute, if_pos hempty,
                Option.getD_none, hback]
            · simp only [setAttribute, putAttribute, eraseAttribute, if_neg hempty,
                Option.getD_some, hback]
        | some v =>
            simp only [setAttribute, putAttribute, Option.getD_some,
              Attributes.put_put_of_find hfind]

/-- Empty attributes are dropped when one was set and set back. -/
theorem setAttribute_setAttribute_of_empty {l : Label} (hl : l.attr = some .empty) (name : String)
    (value : Option Json) :
    (l.setAttribute name value).setAttribute name (l.valueOf name) = l.dropAttributes := by
  rcases l with ⟨id, tag, attr, text⟩
  cases hl
  cases value with
  | none => rfl
  | some v => simp [setAttribute, putAttribute, eraseAttribute, valueOf, dropAttributes,
      Attributes.empty, Attributes.put, Attributes.erase, Attributes.isEmpty, Attributes.find,
      Members.find, Members.put, Members.erase, Members.lastToFront]

theorem writeText_of_text {l : Label} (h : l.text ≠ none) : l.writeText = l := by
  rcases l with ⟨id, tag, attr, _ | text⟩
  · exact absurd rfl h
  · rfl

end Label

/-! ## 2. Edits -/

namespace Edit

variable {page page' back : Forest} {e inv : Edit}

/-- The edit can be taken back without a trace. -/
def KeepsForm (page : Forest) : Edit → Prop
  | insert parent _ _ => page.Solid parent
  | move _ parent _ => page.Solid parent
  | remove _ => True
  | setAttribute id name value =>
      ∀ found, page.find id = some found → found.node.label.KeepsAttributes name value
  | setText id _ => ∀ found, page.find id = some found → found.node.label.text ≠ none
  | replacePage _ => True

theorem perform_of_restore (h : e.restore page = .ok page') : perform page e = .ok page' :=
  ((restore_eq_ok_iff e page page').mp h).2

/-- An attribute that is set and set back: both changes are made to the one label. -/
theorem modifyLabel_of_setAttribute {id name : String} {value : Option Json}
    (hpage : page.Identified) (h : (setAttribute id name value).restore page = .ok page')
    (hinv : inverse page (setAttribute id name value) = .ok inv)
    (hback : inv.restore page' = .ok back) :
    page.modifyLabel id (fun l => (l.setAttribute name value).setAttribute name (l.valueOf name)) =
      .ok back := by
  obtain ⟨found, hfound, rfl⟩ := inverse_setAttribute hinv
  obtain ⟨_, back', _, _, hback', _, hboth⟩ :=
    modifyLabel_modifyLabel (g := (·.setAttribute name (found.node.label.valueOf name)))
      hpage.distinct (fun l => l.ident_setAttribute name value) hfound
      (found.node.label.setAttribute_setAttribute_alike name value) (perform_of_restore h)
  obtain rfl := Except.ok.inj (hback'.symm.trans (perform_of_restore hback))
  rw [← hboth]
  exact modifyLabel_congr hfound rfl

/-- A text that is set and set back is written out. -/
theorem modifyLabel_of_setText {id text : String} (hpage : page.Identified)
    (h : (setText id text).restore page = .ok page')
    (hinv : inverse page (setText id text) = .ok inv) (hback : inv.restore page' = .ok back) :
    page.modifyLabel id Label.writeText = .ok back := by
  obtain ⟨hcheck, hperform⟩ := (restore_eq_ok_iff _ _ _).mp h
  obtain ⟨found, hfound, htext⟩ := check_setText hcheck
  obtain ⟨found', hfound', rfl⟩ := inverse_setText hinv
  obtain rfl := Option.some.inj (hfound.symm.trans hfound')
  obtain ⟨_, back', _, _, hback', _, hboth⟩ :=
    modifyLabel_modifyLabel (f := fun l => { l with text := some text })
      (g := fun l => { l with text := some found.node.label.textContent })
      hpage.distinct (fun _ => rfl) hfound (Label.setText_setText_alike htext) hperform
  obtain rfl := Except.ok.inj (hback'.symm.trans (perform_of_restore hback))
  rw [← hboth]
  exact modifyLabel_congr hfound rfl

/-- **An edit that keeps the form of the page is undone exactly.** -/
theorem eq_of_restore_inverse (hpage : page.Identified) (hfresh : e.Fresh)
    (hkeep : e.KeepsForm page) (h : e.restore page = .ok page')
    (hinv : e.inverse page = .ok inv) (hback : inv.restore page' = .ok back) : back = page := by
  obtain ⟨hcheck, hperform⟩ := (restore_eq_ok_iff e page page').mp h
  have hpage' := identified_perform hpage hfresh hcheck hperform
  cases e with
  | insert parent k tag =>
      obtain ⟨id, hid, rfl⟩ := inverse_insert hinv
      obtain ⟨t, hd⟩ := perform_remove (perform_of_restore hback)
      obtain ⟨rest, hrest, _, hsame⟩ := detach_attach hid hpage'.distinct hperform
      obtain ⟨_, rfl⟩ := Prod.mk.inj (Except.ok.inj (hrest.symm.trans hd))
      exact hsame hkeep
  | move id parent k =>
      obtain ⟨found, old, hfound, hold, rfl⟩ := inverse_move hinv
      obtain ⟨t, rest, hd, ha⟩ := perform_move hperform
      obtain ⟨t', rest', hd', ha'⟩ := perform_move (perform_of_restore hback)
      obtain rfl := node_of_detach hfound hd
      obtain ⟨_, _, _, hid, _⟩ := pathOf_of_find hfound
      -- out of its new place, the tag leaves what it left at first, and goes where it was
      obtain ⟨left, hleft, _, hsame⟩ := detach_attach hid hpage'.distinct ha
      obtain ⟨rfl, rfl⟩ := Prod.mk.inj (Except.ok.inj (hleft.symm.trans hd'))
      obtain rfl := hsame (Solid.of_detach hpage.distinct hkeep hd)
      obtain ⟨_, hattach⟩ := attach_detach_of_parentId hpage.distinct hfound hold hd
      exact Except.ok.inj (ha'.symm.trans hattach)
  | remove id =>
      obtain ⟨hexact, _⟩ := restore_of_remove hpage.distinct hinv h
      exact Except.ok.inj (hback.symm.trans hexact)
  | setAttribute id name value =>
      have hboth := modifyLabel_of_setAttribute hpage h hinv hback
      obtain ⟨found, hfound, _⟩ := inverse_setAttribute hinv
      rw [modifyLabel_self hfound (Label.setAttribute_setAttribute (hkeep found hfound))] at hboth
      exact (Except.ok.inj hboth).symm
  | setText id text =>
      have hboth := modifyLabel_of_setText hpage h hinv hback
      obtain ⟨found, hfound, _⟩ := inverse_setText hinv
      rw [modifyLabel_self hfound (Label.writeText_of_text (hkeep found hfound))] at hboth
      exact (Except.ok.inj hboth).symm
  | replacePage nodes =>
      cases hinv
      exact (Except.ok.inj (perform_of_restore hback)).symm

end Edit

/-! ## 3. Histories -/

/-- A new step is the newest, whatever the limit. -/
theorem History.past_push (h : History) (s : Step) : ∃ past, (h.push s).past = s :: past := by
  simp only [push]
  by_cases hover : 0 < h.limit ∧ h.limit < (s :: h.past).length
  · rw [if_pos hover]
    cases hp : h.past with
    | nil =>
        -- a limit of at least one is not passed by one step
        rw [hp, List.length_singleton] at hover
        omega
    | cons newest past => exact ⟨(newest :: past).dropLast, List.dropLast_cons_cons ..⟩
  · rw [if_neg hover]
    exact ⟨h.past, rfl⟩

/-- An edit outside a batch and the step back after it: the inverse is restored, which leaves a page
    like the one before. -/
theorem Draft.undo_edit {d : Draft} {e : Edit} (hbatch : d.history.batch = none)
    (hpage : d.page.Identified) (hfresh : e.Fresh) (hdone : (d.serve (.edit e)).1 = .done) :
    ∃ inv, e.inverse d.page = .ok inv ∧ e.restore d.page = .ok (d.serve (.edit e)).2.page ∧
      inv.restore (d.serve (.edit e)).2.page =
        .ok ((d.serve (.edit e)).2.serve .undo).2.page ∧
      ((d.serve (.edit e)).2.serve .undo).1 = .moved true ∧
      Alike ((d.serve (.edit e)).2.serve .undo).2.page d.page := by
  cases ha : d.history.apply e d.page with
  | error fault =>
      simp only [serve, ha] at hdone
      cases hdone
  | ok made =>
      obtain ⟨h, page⟩ := made
      obtain ⟨inv, hinv, happly, rfl⟩ := History.apply_eq_ok ha
      have hserved : (d.serve (.edit e)).2 = ⟨d.history.push (.single e inv), page⟩ := by
        simp only [serve, ha, History.note, hbatch]
      have hmade := Edit.restore_of_apply happly
      obtain ⟨inv', back, hinv', hback, halike⟩ := Edit.restore_inverse hpage hfresh hmade
      obtain rfl := Except.ok.inj (hinv.symm.trans hinv')
      obtain ⟨past, hpast⟩ := d.history.past_push (.single e inv)
      have hreplay : Edit.replay page (Step.single e inv).inverses = .ok back := by
        simp only [Step.single, Edit.replay, hback]
      rw [hserved]
      simp only [serve, History.undo, hpast, hreplay, stepped]
      exact ⟨inv, hinv, hmade, hback, trivial, halike⟩

/-- **Undoing brings the source back**, also where it leaves a page in another form. -/
theorem Draft.compile_undo {d : Draft} {e : Edit} (hbatch : d.history.batch = none)
    (hpage : d.page.Identified) (hfresh : e.Fresh) (hdone : (d.serve (.edit e)).1 = .done)
    (o : RenderOptions) :
    ((d.serve (.edit e)).2.serve .undo).2.page.compile o = d.page.compile o := by
  obtain ⟨_, _, _, _, _, halike⟩ := Draft.undo_edit hbatch hpage hfresh hdone
  exact compile_of_alike halike o

/-- **Undoing keeps the form of a page.** On a page with distinct ids, while no batch is open, an
    edit that is made and undone

    * leaves a page like the one before;
    * where it keeps the form of the page, leaves the same page, so that the same text is saved;
    * where it is the setting of a text, leaves the text written out, and nothing else has changed:
      an absent text is there after it, and empty;
    * where it is the setting of an attribute and the attributes were there and empty, leaves them
      absent, and nothing else has changed. -/
theorem undo_keeps_form {d : Draft} {e : Edit} (hbatch : d.history.batch = none)
    (hpage : d.page.Identified) (hfresh : e.Fresh) (hdone : (d.serve (.edit e)).1 = .done) :
    ((d.serve (.edit e)).2.serve .undo).1 = .moved true ∧
    Alike ((d.serve (.edit e)).2.serve .undo).2.page d.page ∧
    (e.KeepsForm d.page →
      ((d.serve (.edit e)).2.serve .undo).2.page = d.page ∧
      Forest.save ((d.serve (.edit e)).2.serve .undo).2.page = Forest.save d.page) ∧
    (∀ id text, e = .setText id text →
      d.page.modifyLabel id Label.writeText =
        .ok ((d.serve (.edit e)).2.serve .undo).2.page) ∧
    (∀ id name value found, e = .setAttribute id name value → d.page.find id = some found →
      found.node.label.attr = some .empty →
      d.page.modifyLabel id Label.dropAttributes =
        .ok ((d.serve (.edit e)).2.serve .undo).2.page) := by
  obtain ⟨inv, hinv, hmade, hback, hmoved, halike⟩ := Draft.undo_edit hbatch hpage hfresh hdone
  refine ⟨hmoved, halike, fun hkeep => ?_, ?_, ?_⟩
  · rw [Edit.eq_of_restore_inverse hpage hfresh hkeep hmade hinv hback]
    exact ⟨rfl, rfl⟩
  · rintro id text rfl
    exact Edit.modifyLabel_of_setText hpage hmade hinv hback
  · rintro id name value found rfl hfound hempty
    rw [← Edit.modifyLabel_of_setAttribute hpage hmade hinv hback]
    exact modifyLabel_congr hfound
      (Label.setAttribute_setAttribute_of_empty hempty name value).symm

/-- Colouring a heading keeps its form: undoing it saves the heading as it was. -/
theorem undo_colour_keeps_form :
    heading.Identified ∧ (colour "red").KeepsForm heading ∧
      Forest.save (((Draft.fresh 100 heading).serve (.edit (colour "red"))).2.serve .undo).2.page =
        Forest.save heading := by
  have hkeep : (colour "red").KeepsForm heading := by
    intro found hfound
    cases hfound
    exact ⟨nofun, nofun⟩
  refine ⟨heading_identified, hkeep, ?_⟩
  exact ((undo_keeps_form (d := .fresh 100 heading) (e := colour "red") rfl heading_identified
    trivial rfl).2.2.1 hkeep).2

/-- A page of one literal text that has no text yet. -/
def untold : Forest := [⟨{ Label.ofTag textTag with id := some "t" }, none⟩]

/-- The same page with an empty text. -/
def told : Forest := [⟨{ Label.ofTag textTag with id := some "t", text := some "" }, none⟩]

theorem untold_identified : untold.Identified where
  named l hl := by
    rw [untold, labels_cons, Node.children_mk, Option.getD_none, labels_nil, List.append_nil,
      List.mem_singleton] at hl
    rw [hl]
    decide
  distinct := by decide

/-- **Not every edit is undone exactly**: an absent text, once it was set, is there and empty. -/
theorem undo_writes_text :
    ¬ ∀ (d : Draft) (e : Edit), d.history.batch = none → d.page.Identified → e.Fresh →
      (d.serve (.edit e)).1 = .done →
        Forest.save ((d.serve (.edit e)).2.serve .undo).2.page = Forest.save d.page := by
  intro h
  have hsave := h (.fresh 100 untold) (.setText "t" "x") rfl untold_identified trivial rfl
  have hundone :
      (((Draft.fresh 100 untold).serve (.edit (.setText "t" "x"))).2.serve .undo).2.page = told :=
    rfl
  rw [hundone] at hsave
  have hother : Forest.save told ≠ Forest.save untold := by decide
  exact hother hsave

end Pagewright
