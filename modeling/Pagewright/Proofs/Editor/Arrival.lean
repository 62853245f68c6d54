import Pagewright.Proofs.Editor.Landing
import Pagewright.Proofs.Editor.Named
import Pagewright.Proofs.Editor.UniqueIds

/-!
# A tag that comes on the page

A tag that is added, or a copy of one, passes three visits before it is put in: its nodes are given
the ids they lack, a copy all of them, and those that the page has are drawn anew. This file says
what is on the page in the end.

* `Forest.Arrives` -- one tag has come on the page, under an id that finds it, at its spot, and with
  nothing else;
* `Session.renamed_entering` -- the tag enters as it was given, but for ids;
* `Session.arrives_of_addTag` -- a tag that is added arrives as it enters;
* `Session.tags_arrive` -- **one tag arrives**, whether it is added or copied, with the ids that it
  may keep.
-/

namespace Pagewright

open Forest

/-- A tag has come on the page, and nothing else.

    * Its id, which no node had before, finds it, and none of its ids was on the page.
    * It stands at the spot, or last at top level where no tag is given.
    * Taken out again it leaves the page as it was, but for a list of children that was there and
      empty and may be gone. -/
structure Forest.Arrives (page page' : Forest) (id : String) (destination : Option String)
    (spot : Spot) (t : Node) : Prop where
  new : id ∉ ids page
  found : (page'.find id).map Match.node = some t
  apart : ∀ other ∈ ids [t], other ∉ ids page
  stands : ∀ dest, destination = some dest → page'.Stands t dest spot
  last : destination = none → page' = page ++ [t]
  out : ∃ rest, page'.detach id = .ok (t, rest) ∧ Sheds page rest

namespace Session

/-! ## 1. As it enters -/

variable {σ : Type}

/-- **A tag enters as it was given**, but for ids; an id that the page has not is kept. -/
theorem renamed_entering [IdSource σ] (s : Session σ) (tag : Node) :
    Forest.Renamed (· ∉ Forest.ids s.page) [tag] [(s.entering tag).1] := by
  have hfree : ∀ id, id ∉ Forest.ids s.page → s.onPage id = false := fun id hid => by
    rw [onPage, ← Bool.not_eq_true, find_isSome_iff]
    exact hid
  have hnamed := Node.renamed_relabel (Label.Renamed.assignId (· ∉ Forest.ids s.page)) tag s.ids
  have hrenamed := Node.renamed_relabel (Label.Renamed.replaceId s.onPage)
    (tag.assignIds false s.ids).1 ((tag.assignIds false s.ids).2, 0)
  exact hnamed.trans (hrenamed.mono hfree)

/-! ## 2. Where it is put in -/

variable [IdSource σ] {s s' : Session σ} {tag : Node} {destination : Option String} {spot : Spot}
  {id dest : String}

/-- What the adding of a tag that succeeds comes to. -/
theorem exists_of_addTag (h : s.addTag tag destination spot = (.ok id, s')) :
    ∃ parent k, s.placement destination spot = .ok (parent, k) ∧
      (Edit.insert parent k (s.entering tag).1).apply s.page = .ok s'.page ∧
      id = (s.entering tag).1.ident.getD "" := by
  have h' : ({ s with ids := (s.entering tag).2 } : Session σ).putIn (s.entering tag).1 destination
      spot = (.ok id, s') := h
  have hsame : ({ s with ids := (s.entering tag).2 } : Session σ).placement destination spot =
      s.placement destination spot := rfl
  rw [putIn, hsame] at h'
  cases hplace : s.placement destination spot with
  | error e => simp only [hplace] at h'; cases h'
  | ok place =>
      obtain ⟨parent, k⟩ := place
      simp only [hplace] at h'
      rcases hmake : ({ s with ids := (s.entering tag).2 } : Session σ).make
        (.insert parent k (s.entering tag).1) with ⟨_ | _, after⟩
      · simp only [hmake] at h'
        cases h'
      · have hmade := apply_of_make hmake
        simp only [hmake] at h'
        cases h'
        exact ⟨parent, k, rfl, hmade, rfl⟩

/-- **A tag that is added arrives as it enters.** -/
theorem arrives_of_addTag (hs : s.page.Identified)
    (h : s.addTag tag destination spot = (.ok id, s')) :
    s.page.Arrives s'.page id destination spot (s.entering tag).1 := by
  obtain ⟨parent, k, hplace, happly, hresult⟩ := exists_of_addTag h
  obtain ⟨hcheck, hperform⟩ := (Edit.apply_eq_ok_iff _ _ _).mp happly
  have ha : s.page.attach parent k (s.entering tag).1 = .ok s'.page := hperform
  obtain ⟨⟨own, hown⟩, hapart, _⟩ := Edit.check_insert hcheck
  rw [hown, Option.getD_some] at hresult
  subst hresult
  have hnew : id ∉ Forest.ids s.page :=
    hapart id (mem_ids_of_ident (List.mem_singleton_self (s.entering tag).1) hown)
  obtain ⟨p, rest, hp, ht, hsheds, _⟩ := takeAt_attach hown hnew ha
  obtain ⟨n, q, i, _, hn, _, hfind⟩ := find_of_pathOf hp
  obtain rfl := Option.some.inj ((nodeAt_of_takeAt ht).symm.trans hn)
  refine ⟨hnew, by rw [hfind, Option.map_some], hapart, ?_, ?_, rest, detach_of_takeAt hp ht,
    hsheds⟩
  · rintro dest rfl
    exact stands_of_attach hs hplace ha
  · rintro rfl
    cases hplace
    rw [attach, insertAt, Nat.min_self, List.insertIdx_length_self] at ha
    exact (Except.ok.inj ha).symm

/-! ## 3. Copies -/

/-- What the copying of a tag that succeeds comes to. -/
theorem exists_of_copyTag {source : String}
    (h : s.copyTag source dest spot = (.ok id, s')) :
    ∃ found, s.page.find source = some found ∧
      ({ s with ids := (found.node.assignIds true s.ids).2 } : Session σ).addTag
        (found.node.assignIds true s.ids).1 (some dest) spot = (.ok id, s') ∧
      s.draws (.copyTag source dest spot) = (labels [found.node]).length +
        ({ s with ids := (found.node.assignIds true s.ids).2 } : Session σ).entranceDraws
          (found.node.assignIds true s.ids).1 := by
  rw [copyTag] at h
  cases hfound : s.page.find source with
  | none => simp only [hfound] at h; cases h
  | some found =>
      simp only [hfound] at h
      exact ⟨found, rfl, h, by simp only [draws, hfound]⟩

variable [LawfulIdSource σ]

/-- A tag all of whose ids are new enters with nothing but new ids. -/
theorem mem_drawn_of_entering {count : Nat} {drawn : Node × σ}
    (hdrawn : Node.DrawnFrom s.ids count drawn) :
    ∀ id ∈ Forest.ids [(({ s with ids := drawn.2 } : Session σ).entering drawn.1).1],
      id ∈ (IdSource.take
        (count + ({ s with ids := drawn.2 } : Session σ).entranceDraws drawn.1) s.ids).1 := by
  intro id hid
  obtain ⟨n, m, hdraws, hperm, _⟩ := ({ s with ids := drawn.2 } : Session σ).ids_entering drawn.1
  obtain ⟨hids, hsource⟩ := hdrawn
  rw [hdraws, IdSource.take_add, ← hsource, IdSource.take_add, ← hids]
  simp only [hperm.mem_iff, List.mem_append, List.mem_filter] at hid ⊢
  exact hid.imp And.left (Or.imp_left And.left)

/-- **One tag arrives.** On a page whose nodes all have ids, all different,

    * a tag that is added arrives as it was given, but for ids; those of its ids that the page has
      not are kept;
    * a tag that is copied arrives as the source was before, but for ids. All its ids are drawn in
      the call, and they are distinct where fewer are drawn than there are and the word of the
      numbering does not start over. -/
theorem tags_arrive (s : Session Numbering) (hs : s.page.Identified) :
    (∀ tag destination spot id s', s.addTag tag destination spot = (.ok id, s') →
      ∃ t, s.page.Arrives s'.page id destination spot t ∧
        Forest.Renamed (· ∉ Forest.ids s.page) [tag] [t]) ∧
    ∀ source dest spot id s', s.copyTag source dest spot = (.ok id, s') →
      ∃ found t, s.page.find source = some found ∧
        s.page.Arrives s'.page id (some dest) spot t ∧
        Forest.Renamed (fun _ => False) [found.node] [t] ∧
        (∀ l ∈ labels [t], ∃ new ∈ (s.ids.take (s.draws (.copyTag source dest spot))).1,
          l.ident = some new) ∧
        (s.draws (.copyTag source dest spot) ≤ idCount →
          s.ids.count.toNat + s.draws (.copyTag source dest spot) ≤ UInt32.size →
          (Forest.ids [t]).Nodup) := by
  refine ⟨fun tag destination spot id s' h => ?_, fun source dest spot id s' h => ?_⟩
  · exact ⟨_, arrives_of_addTag hs h, s.renamed_entering tag⟩
  · obtain ⟨found, hfound, hadd, hdraws⟩ := exists_of_copyTag h
    have hdrawn := found.node.drawn_assignIds s.ids
    have hcopied : Forest.Renamed (fun _ => False) [found.node]
        [(found.node.assignIds true s.ids).1] :=
      found.node.renamed_relabel Label.Renamed.assignId_force s.ids
    generalize found.node.assignIds true s.ids = copy at hadd hdraws hdrawn hcopied
    have hpage : ({ s with ids := copy.2 } : Session Numbering).page.Identified := hs
    have harrives := arrives_of_addTag hpage hadd
    refine ⟨found, _, hfound, harrives, ?_, fun l hl => ?_, fun hround hword => ?_⟩
    · exact hcopied.trans ((renamed_entering _ copy.1).mono fun _ hno => hno.elim)
    · obtain ⟨new, hnew⟩ := Option.ne_none_iff_exists'.mp (named_entering _ copy.1 l hl)
      refine ⟨new, ?_, hnew⟩
      rw [Numbering.take_eq, hdraws]
      exact mem_drawn_of_entering hdrawn new (List.mem_filterMap.mpr ⟨l, hl, hnew⟩)
    · have hd := Numbering.take_nodup hround hword
      rw [hdraws] at hd
      exact nodup_entering_drawn hdrawn hd

/-- A box with a note in it. -/
def cabin : Forest :=
  [⟨{ Label.ofTag "div" with id := some "box" },
    some [⟨{ Label.ofTag "p" with id := some "note" }, none⟩]⟩]

/-- A tag whose own id the page has; below it, one has an id to be kept, and one has none. -/
def newcomer : Node :=
  ⟨{ Label.ofTag "div" with id := some "note" },
    some [⟨{ Label.ofTag "p" with id := some "kept" }, none⟩, ⟨Label.ofTag "p", none⟩]⟩

/-- A tag with an id of the page is added before the note; the box is copied into itself. -/
theorem tags_arrive_cabin :
    let s := ofPage cabin .standard Numbering.fresh
    s.page.Identified ∧
      (∃ s' t, s.addTag newcomer (some "note") .before = (.ok "tag_10000001", s') ∧
        s.page.Arrives s'.page "tag_10000001" (some "note") .before t) ∧
      ∃ s' t, s.copyTag "box" "box" .inside = (.ok "tag_10000000", s') ∧
        s.page.Arrives s'.page "tag_10000000" (some "box") .inside t ∧ (Forest.ids [t]).Nodup := by
  intro s
  have hs : s.page.Identified := by decide
  have hadd : ((ofPage cabin .standard Numbering.fresh).addTag newcomer (some "note") .before).1 =
    .ok "tag_10000001" := by rfl
  have hcopy : ((ofPage cabin .standard Numbering.fresh).copyTag "box" "box" .inside).1 =
    .ok "tag_10000000" := by rfl
  obtain ⟨t, hadded, _⟩ := (tags_arrive s hs).1 newcomer (some "note") .before _ _
    (Prod.ext hadd rfl)
  obtain ⟨_, t', _, hcopied, _, _, hdistinct⟩ := (tags_arrive s hs).2 "box" "box" .inside _ _
    (Prod.ext hcopy rfl)
  exact ⟨hs, ⟨_, t, Prod.ext hadd rfl, hadded⟩, _, t', Prod.ext hcopy rfl, hcopied,
    hdistinct (by decide) (by decide)⟩

end Session

end Pagewright
