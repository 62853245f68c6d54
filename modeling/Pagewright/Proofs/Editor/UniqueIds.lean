import Pagewright.Proofs.Editor.Holding

/-!
# Unique ids over a session

Whether two nodes of an open page ever have the same id.

* `Edit.Distinct` -- what an edit brings in has no id twice; an edit of this kind keeps the ids of a
  page distinct, and so is its inverse (`Forest.durable_nodup`);
* `Session.Sound` -- **the invariant**: the ids of the page are distinct, and whatever the history
  may bring back is of this kind;
* `Session.Apart` -- what an operation must not do: bring in a tag with an id twice, or with an id
  that is handed out at the same moment;
* `distinct_iff_apart` -- **ids stay unique exactly where no operation does this**, and where no id
  that is handed out at the opening is on the page already.
-/

namespace Pagewright

open Forest

/-! ## 1. Edits -/

/-- What an edit brings in has no id twice. -/
def Edit.Distinct (e : Edit) : Prop := e.Brings fun ns => (ids ns).Nodup

/-- **Ids stay distinct** under edits of this kind, and whatever takes an edit back is of this
    kind. -/
theorem Forest.durable_nodup : Durable fun ns => (ids ns).Nodup :=
  Partible.distinct.severable.durable

/-! ## 2. Histories -/

/-- A step whose edits and inverses bring in distinct ids. -/
structure Step.Distinct (s : Step) : Prop where
  edits : ∀ e ∈ s.edits, e.Distinct
  inverses : ∀ e ∈ s.inverses, e.Distinct

/-- A history all of whose steps do. -/
structure History.Distinct (h : History) : Prop where
  past : ∀ s ∈ h.past, s.Distinct
  future : ∀ s ∈ h.future, s.Distinct
  batch : ∀ s, h.batch = some s → s.Distinct

theorem Step.distinct_iff_holds {s : Step} :
    s.Distinct ↔ s.Holds fun ns => (ids ns).Nodup :=
  ⟨fun h => ⟨h.edits, h.inverses⟩, fun h => ⟨h.edits, h.inverses⟩⟩

theorem History.distinct_iff_holds {h : History} :
    h.Distinct ↔ h.Holds fun ns => (ids ns).Nodup := by
  constructor
  · intro hd
    exact ⟨fun s hs => Step.distinct_iff_holds.mp (hd.past s hs),
      fun s hs => Step.distinct_iff_holds.mp (hd.future s hs),
      fun s hs => Step.distinct_iff_holds.mp (hd.batch s hs)⟩
  · intro hh
    exact ⟨fun s hs => Step.distinct_iff_holds.mpr (hh.past s hs),
      fun s hs => Step.distinct_iff_holds.mpr (hh.future s hs),
      fun s hs => Step.distinct_iff_holds.mpr (hh.batch s hs)⟩

theorem History.Distinct.empty (limit : Nat) : (History.empty limit).Distinct :=
  History.distinct_iff_holds.mpr (.empty limit)

/-! ## 3. Sessions -/

/-- **The invariant**: the ids of the page are distinct, and so is whatever the history may bring
    back. -/
structure Session.Sound {σ : Type} (s : Session σ) : Prop where
  ids : (Forest.ids s.page).Nodup
  history : s.history.Distinct

theorem Session.sound_iff_holds {σ : Type} {s : Session σ} :
    s.Sound ↔ s.draft.Holds fun ns => (Forest.ids ns).Nodup :=
  ⟨fun h => ⟨h.ids, History.distinct_iff_holds.mp h.history⟩,
    fun h => ⟨h.page, History.distinct_iff_holds.mpr h.history⟩⟩

/-! ## 4. What an operation must not bring in -/

namespace Session

variable {σ : Type} [IdSource σ]

/-- Whether the ids of a tag can come on the page together: those that the page has not are
    distinct, and none of them is handed out as the tag enters. -/
def Admits (s : Session σ) (tag : Node) : Prop :=
  ((Forest.ids [tag]).filter (!s.onPage ·)).Nodup ∧
    ∀ id ∈ (Forest.ids [tag]).filter (!s.onPage ·),
      id ∉ (IdSource.take (s.entranceDraws tag) s.ids).1

/-- The same for a page that is put in as a whole. -/
def AdmitsPage (s : Session σ) (page : Forest) : Prop :=
  (Forest.ids page).Nodup ∧ ∀ id ∈ Forest.ids page, id ∉ (IdSource.take page.lacking s.ids).1

/-- What an operation that is done must keep apart; only a tag or an outline that is given from
    outside can fail to. -/
def Apart (s : Session σ) : Operation → Prop
  | .addTag tag destination spot =>
      (s.perform (.addTag tag destination spot)).1 = .ok () → s.Admits tag
  | .applyOutline rows => s.AdmitsPage (Outline.forest rows)
  | _ => True

/-- Whether all the operations do, in turn. -/
def AllApart (s : Session σ) : List Operation → Prop
  | [] => True
  | op :: ops => s.Apart op ∧ AllApart (s.perform op).2 ops

/-- **A tag with nothing but new ids is always admitted.** -/
theorem admits_of_drawn {source : σ} {k : Nat} {drawn : Node × σ}
    (hdrawn : Node.DrawnFrom source k drawn) (s : Session σ) (hs : s.ids = drawn.2)
    (hd : (IdSource.take (k + s.entranceDraws drawn.1) source).1.Nodup) : s.Admits drawn.1 := by
  obtain ⟨hids, hsource⟩ := hdrawn
  rw [IdSource.take_add, ← hsource, ← hs, ← hids, List.nodup_append] at hd
  obtain ⟨hown, _, hapart⟩ := hd
  refine ⟨hown.filter _, fun id hid hnew => ?_⟩
  exact hapart id (List.mem_filter.mp hid).1 id hnew rfl

variable [LawfulIdSource σ]

/-- **A tag comes on the page with distinct ids exactly where it is admitted**, as long as the
    source does not repeat itself. -/
theorem nodup_entering_iff (s : Session σ) (tag : Node)
    (hd : (IdSource.take (s.entranceDraws tag) s.ids).1.Nodup) :
    (Forest.ids [(s.entering tag).1]).Nodup ↔ s.Admits tag := by
  obtain ⟨n, m, hdraws, hperm, _⟩ := s.ids_entering tag
  rw [Admits, hperm.nodup_iff, hdraws, IdSource.take_add]
  rw [hdraws, IdSource.take_add] at hd
  constructor
  · intro h
    rw [List.nodup_append] at h
    obtain ⟨hkept, _, hapart⟩ := h
    refine ⟨hkept, fun id hid hnew => ?_⟩
    rcases List.mem_append.mp hnew with hnew | hnew
    · -- it is not on the page, so it is not replaced
      have hstays : id ∈ (IdSource.take n s.ids).1.filter (!s.onPage ·) :=
        List.mem_filter.mpr ⟨hnew, (List.mem_filter.mp hid).2⟩
      exact hapart id hid id (List.mem_append_left _ hstays) rfl
    · exact hapart id hid id (List.mem_append_right _ hnew) rfl
  · rintro ⟨hkept, hapart⟩
    rw [List.nodup_append]
    refine ⟨hkept, (List.filter_sublist.append_right _).nodup hd, ?_⟩
    rintro id hid _ hnew rfl
    apply hapart id hid
    rcases List.mem_append.mp hnew with hnew | hnew
    · exact List.mem_append_left _ (List.mem_filter.mp hnew).1
    · exact List.mem_append_right _ hnew

/-- A page that was given the ids it lacks has distinct ones exactly where it is admitted. -/
theorem nodup_assignIds_iff (s : Session σ) (page : Forest)
    (hd : (IdSource.take page.lacking s.ids).1.Nodup) :
    (Forest.ids (page.assignIds false s.ids).1).Nodup ↔ s.AdmitsPage page := by
  rw [AdmitsPage, (Forest.ids_assignIds page s.ids).1.nodup_iff, List.nodup_append]
  constructor
  · rintro ⟨hpage, _, hapart⟩
    exact ⟨hpage, fun id hid hnew => hapart id hid id hnew rfl⟩
  · rintro ⟨hpage, hapart⟩
    refine ⟨hpage, hd, ?_⟩
    rintro id hid _ hnew rfl
    exact hapart id hid hnew

/-! ## 5. Step and run -/

/-- A tag with nothing but new ids comes on the page with distinct ids. -/
theorem nodup_entering_drawn {s : Session σ} {k : Nat} {drawn : Node × σ}
    (hdrawn : Node.DrawnFrom s.ids k drawn)
    (hd : (IdSource.take
      (k + ({ s with ids := drawn.2 } : Session σ).entranceDraws drawn.1) s.ids).1.Nodup) :
    (Forest.ids [(({ s with ids := drawn.2 } : Session σ).entering drawn.1).1]).Nodup := by
  have hadmits := admits_of_drawn hdrawn { s with ids := drawn.2 } rfl hd
  rw [IdSource.take_add, List.nodup_append, ← hdrawn.2] at hd
  exact (nodup_entering_iff _ drawn.1 hd.2.1).mpr hadmits

/-- **What comes on the page has distinct ids**, where the operation is done and keeps ids apart. -/
theorem brings_nodup {s : Session σ} {op : Operation}
    (hd : (IdSource.take (s.draws op) s.ids).1.Nodup) (hop : s.Apart op)
    (hdone : ∀ tag destination spot, op = .addTag tag destination spot →
      (s.perform op).1 = .ok ()) :
    s.Brings (fun ns => (Forest.ids ns).Nodup) op where
  tag tag ids coming := by
    cases op with
    | addTag tag' destination spot =>
        cases coming
        exact (s.nodup_entering_iff tag hd).mpr (hop (hdone tag destination spot rfl))
    | addSample name text destination spot =>
        obtain ⟨e, he, hsample⟩ := Option.map_eq_some_iff.mp coming
        have hdrawn := e.drawn_sample text s.ids
        simp only [draws, he] at hd
        rw [hsample] at hd hdrawn
        exact nodup_entering_drawn hdrawn hd
    | addStarter name destination spot =>
        obtain ⟨t, ht, hblock⟩ := Option.map_eq_some_iff.mp coming
        have hdrawn := t.drawn_instantiate s.ids
        simp only [draws, ht] at hd
        rw [hblock] at hd hdrawn
        exact nodup_entering_drawn hdrawn hd
    | copyTag id destination spot =>
        obtain ⟨source, hf, hcopy⟩ := Option.map_eq_some_iff.mp coming
        have hdrawn := source.node.drawn_assignIds s.ids
        simp only [draws, hf] at hd
        rw [hcopy] at hd hdrawn
        exact nodup_entering_drawn hdrawn hd
    | _ => cases coming
  page rows hrows := by
    subst hrows
    exact (s.nodup_assignIds_iff (Outline.forest rows) hd).mpr hop

/-- **A step**: an operation that keeps ids apart keeps the session sound. -/
theorem Sound.perform {s : Session σ} (h : s.Sound) {op : Operation}
    (hd : (IdSource.take (s.draws op) s.ids).1.Nodup) (hop : s.Apart op) :
    (s.perform op).2.Sound := by
  have hholds := sound_iff_holds.mp h
  cases op with
  | addTag tag destination spot =>
      cases hresult : (s.perform (.addTag tag destination spot)).1 with
      | ok u =>
          have hbrings := brings_nodup hd hop fun _ _ _ _ => hresult
          exact sound_iff_holds.mpr (holds_perform durable_nodup hholds hbrings)
      | error e =>
          -- the ids of a tag that is kept out may be anything, so the page stays as it is
          have hsingle : ∀ ids, Operation.addTag tag destination spot ≠ .removeTags ids :=
            fun _ hno => by cases hno
          rw [(s.perform_steps hsingle).eq_of_error hresult]
          exact ⟨h.ids, h.history⟩
  | _ =>
      have hbrings := brings_nodup hd hop fun _ _ _ hno => by cases hno
      exact sound_iff_holds.mpr (holds_perform durable_nodup hholds hbrings)

/-- **A step the other way**: an operation that leaves a page with distinct ids kept them apart. -/
theorem apart_of_nodup {s : Session σ} {op : Operation}
    (hd : (IdSource.take (s.draws op) s.ids).1.Nodup)
    (hpage : (Forest.ids (s.perform op).2.page).Nodup) : s.Apart op := by
  cases op with
  | addTag tag destination spot =>
      intro hdone
      rcases s.addTag_cases tag destination spot with ⟨e, ha⟩ | ⟨parent, k, history, page, ha, hadd⟩
      · rw [Session.perform, Outcome.plain, ha] at hdone
        cases hdone
      · rw [Session.perform, Outcome.plain, hadd] at hpage
        obtain ⟨inv, _, hp, _⟩ := History.apply_eq_ok ha
        obtain ⟨_, hperform⟩ := (Edit.apply_eq_ok_iff _ s.page page).mp hp
        have hparts := (Forest.nodup_ids_iff_of_perm (Forest.labels_attach hperform)).mp hpage
        exact (s.nodup_entering_iff tag hd).mp hparts.1
  | applyOutline rows =>
      rw [Session.perform, applyOutline] at hpage
      simp only [make_replacePage, page_syncSelection] at hpage
      exact (s.nodup_assignIds_iff (Outline.forest rows) hd).mp hpage
  | _ => trivial

/-- **A run**: from a sound session, every session on the way has distinct ids exactly where every
    operation keeps ids apart. -/
theorem distinct_trail_iff {s : Session σ} (h : s.Sound) (ops : List Operation)
    (hd : (IdSource.take (s.drawsAll ops) s.ids).1.Nodup) :
    (∀ s' ∈ s.trail ops, (Forest.ids s'.page).Nodup) ↔ s.AllApart ops := by
  induction ops generalizing s with
  | nil =>
      refine ⟨fun _ => trivial, fun _ s' hs' => ?_⟩
      rw [trail, List.mem_singleton] at hs'
      rw [hs']
      exact h.ids
  | cons op ops ih =>
      rw [drawsAll, IdSource.take_add, List.nodup_append, ← ids_perform] at hd
      obtain ⟨hop, hops, _⟩ := hd
      rw [trail, List.forall_mem_cons, AllApart]
      constructor
      · rintro ⟨_, hrest⟩
        have hapart := apart_of_nodup hop (hrest _ (mem_trail_self _ ops))
        exact ⟨hapart, (ih (h.perform hop hapart) hops).mp hrest⟩
      · rintro ⟨hapart, hrest⟩
        exact ⟨h.ids, (ih (h.perform hop hapart) hops).mpr hrest⟩

/-- **Ids stay unique exactly where nothing from outside brings one in twice.** A page with distinct
    ids is opened with a numbering, and operations are done in turn, failures included; in all,
    fewer ids are drawn than there are, and the word of the numbering does not start over. Then no
    page on the way has an id twice exactly where

    * no id that is handed out at the opening is on the page already, and
    * of every tag that is added, the ids that the page does not have are distinct, and none of them
      is handed out in the same call (`Session.Admits`); likewise for an outline that is put in. -/
theorem distinct_iff_apart {page : Forest} (hpage : (Forest.ids page).Nodup)
    (options : EditorOptions) (source : Numbering) (ops : List Operation)
    (hround : page.lacking + (ofPage page options source).drawsAll ops ≤ idCount)
    (hword : source.count.toNat + (page.lacking + (ofPage page options source).drawsAll ops) ≤
      UInt32.size) :
    (∀ s ∈ (ofPage page options source).trail ops, (Forest.ids s.page).Nodup) ↔
      (∀ id ∈ Forest.ids page, id ∉ (source.take page.lacking).1) ∧
        (ofPage page options source).AllApart ops := by
  have hd := Numbering.take_nodup hround hword
  rw [IdSource.take_add, List.nodup_append] at hd
  obtain ⟨hopen, hops, _⟩ := hd
  obtain ⟨hids, hsource⟩ := Forest.ids_assignIds page source
  rw [← hsource] at hops
  have hopened : (Forest.ids (ofPage page options source).page).Nodup ↔
      ∀ id ∈ Forest.ids page, id ∉ (source.take page.lacking).1 := by
    show (Forest.ids (page.assignIds false source).1).Nodup ↔ _
    rw [hids.nodup_iff, List.nodup_append, Numbering.take_eq]
    exact ⟨fun h id hid hnew => h.2.2 id hid id hnew rfl,
      fun h => ⟨hpage, hopen, fun id hid id' hnew e => h id hid (e ▸ hnew)⟩⟩
  have hsound : (Forest.ids (ofPage page options source).page).Nodup →
      (ofPage page options source).Sound := fun h => ⟨h, .empty options.undoLevels⟩
  have hfirst : ofPage page options source ∈ (ofPage page options source).trail ops := by
    cases ops with
    | nil => exact List.mem_singleton_self _
    | cons op ops => exact List.mem_cons_self
  constructor
  · intro h
    have hs := hsound (h _ hfirst)
    exact ⟨hopened.mp (h _ hfirst), (distinct_trail_iff hs ops hops).mp h⟩
  · rintro ⟨hapart, hall⟩
    exact (distinct_trail_iff (hsound (hopened.mpr hapart)) ops hops).mpr hall

/-- A heading with an id, a sample of a paragraph added and taken back: no page on the way has an id
    twice. -/
theorem distinct_sample_undo :
    (Forest.ids [(Node.ofTag "h1").withId "title"]).Nodup ∧
      ∀ s ∈ (ofPage [(Node.ofTag "h1").withId "title"] .standard Numbering.fresh).trail
        [.addSample "p" "Hello" none .after, .undo], (Forest.ids s.page).Nodup := by
  have hpage : (Forest.ids [(Node.ofTag "h1").withId "title"]).Nodup := by decide
  refine ⟨hpage, ?_⟩
  exact (distinct_iff_apart hpage .standard .fresh [.addSample "p" "Hello" none .after, .undo]
    (by decide) (by decide)).mpr ⟨by decide, trivial, trivial, trivial⟩

/-- **A page can be opened into one with an id twice**: the one node lacks an id, the other has the
    id that the numbering hands out. -/
theorem duplicate_at_opening :
    (Forest.ids [Node.ofTag "div", (Node.ofTag "div").withId "tag_10000000"]).Nodup ∧
      ¬ (Forest.ids (ofPage [Node.ofTag "div", (Node.ofTag "div").withId "tag_10000000"]
        .standard Numbering.fresh).page).Nodup := by
  decide

end Session

end Pagewright
