import Pagewright.Editor.Session
import Pagewright.Proofs.Editor.Effect
import Pagewright.Proofs.Page.Naming

/-!
# Operations on a session

What is done to an open page, as data: `Session.perform` does an operation, and `Session.trail`
lists the sessions that a list of operations leads through, failures included.

* `Session.KeepsTools` says what edits leave beside the page: the source of ids, the drag and the
  options;
* `Session.entering` is what comes of a tag that is put on the page: `addTag_cases` says that this
  goes on the page or nothing does;
* `Session.draws` counts the ids that an operation takes from the source, and `ids_perform` says
  that the source after it is the one that has handed out so many.
-/

namespace Pagewright

/-! ## 1. Operations -/

/-- What is done to a session. -/
inductive Operation where
  | select (id : String)
  | clearSelection
  | addTag (tag : Node) (destination : Option String) (spot : Spot)
  | addSample (tag text : String) (destination : Option String) (spot : Spot)
  | addStarter (name : String) (destination : Option String) (spot : Spot)
  | moveTag (id destination : String) (spot : Spot)
  | copyTag (id destination : String) (spot : Spot)
  | removeTag (id : String)
  | removeTags (ids : List String)
  | setAttribute (id name : String) (value : Option Json)
  | setStyle (id : String) (style : TextStyle) (value : String)
  | setText (id text : String)
  | applyOutline (rows : List Outline)
  | undo
  | redo
  | beginDrag (source : Option String)
  | hover (now : Int) (pointer : Point) (hovered : Option Box) (tag : String)
  | endDrag

/-- Whether an operation is about the drag. -/
def Operation.drags : Operation → Bool
  | .beginDrag _ | .hover .. | .endDrag => true
  | _ => false

/-- An outcome, of which only the failure counts. -/
def Outcome.plain {σ α : Type} (o : Outcome σ α) : Outcome σ Unit := (o.1.map fun _ => (), o.2)

namespace Session

variable {σ : Type}

section Perform

variable [IdSource σ]

/-- Does an operation. -/
def perform (s : Session σ) : Operation → Outcome σ Unit
  | .select id => s.select id
  | .clearSelection => (.ok (), s.clearSelection)
  | .addTag tag destination spot => Outcome.plain (s.addTag tag destination spot)
  | .addSample tag text destination spot => Outcome.plain (s.addSample tag text destination spot)
  | .addStarter name destination spot => Outcome.plain (s.addStarter name destination spot)
  | .moveTag id destination spot => s.moveTag id destination spot
  | .copyTag id destination spot => Outcome.plain (s.copyTag id destination spot)
  | .removeTag id => s.removeTag id
  | .removeTags ids => s.removeTags ids
  | .setAttribute id name value => s.setAttribute id name value
  | .setStyle id style value => s.setStyle id style value
  | .setText id text => s.setText id text
  | .applyOutline rows => s.applyOutline rows
  | .undo => Outcome.plain s.undo
  | .redo => Outcome.plain s.redo
  | .beginDrag source => (.ok (), s.beginDrag source)
  | .hover now pointer hovered tag => (.ok (), (s.hover now pointer hovered tag).2)
  | .endDrag => (.ok (), s.endDrag.2)

/-- The session at first and after each of the operations in turn. -/
def trail (s : Session σ) : List Operation → List (Session σ)
  | [] => [s]
  | op :: ops => s :: trail (s.perform op).2 ops

/-- A trail begins where it is asked for. -/
theorem mem_trail_self (s : Session σ) (ops : List Operation) : s ∈ s.trail ops := by
  cases ops with
  | nil => exact List.mem_singleton_self s
  | cons op ops => exact List.mem_cons_self

end Perform

/-! ## 2. Edits and nothing else -/

theorem make_cases (s : Session σ) (e : Edit) :
    (∃ fault, s.make e = (.error (.edit fault), s)) ∨
      ∃ history page, s.history.apply e s.page = .ok (history, page) ∧
        s.make e = (.ok (), { s with history := history, page := page }) := by
  rw [make, History.apply]
  rcases s.history.applyTo_cases e s.page with ⟨fault, h⟩ | ⟨inv, page, _, _, h⟩
  · rw [h]
    exact Or.inl ⟨fault, rfl⟩
  · rw [h]
    exact Or.inr ⟨_, page, rfl, rfl⟩

/-- An edit that is made applies to the page. -/
theorem apply_of_make {s s' : Session σ} {e : Edit} (h : s.make e = (.ok (), s')) :
    e.apply s.page = .ok s'.page := by
  rcases s.make_cases e with ⟨fault, hm⟩ | ⟨history, page, happly, hm⟩
  · rw [hm] at h
    cases h
  · obtain ⟨_, _, hmade, _⟩ := History.apply_eq_ok happly
    rw [hm] at h
    cases h
    exact hmade

theorem make_of_check_error {s : Session σ} {e : Edit} {fault : EditFault}
    (h : e.check s.page true = .error fault) : s.make e = (.error (.edit fault), s) := by
  rw [make, History.applyTo, Edit.validate, h]

/-- A page is put in place of another without any check. -/
theorem make_replacePage (s : Session σ) (nodes : Forest) :
    s.make (.replacePage nodes) =
      (.ok (), { s with
        history := s.history.note (.replacePage nodes) (.replacePage s.page), page := nodes }) := by
  rw [make, History.applyTo, History.note]
  cases s.history.batch with
  | none => rfl
  | some step => rfl

/-- **The selection is kept exactly where its tag is on the page**, and all else is kept. -/
theorem syncSelection_eq (s : Session σ) : s.syncSelection =
    { s with selected := s.selected.filter (Forest.contains · s.page) } := by
  obtain ⟨page, _ | id, history, drag, ids, options⟩ := s
  · rfl
  · rw [syncSelection]
    simp only [Option.filter_some]
    by_cases h : Forest.contains id page = true
    · rw [if_pos h, if_pos h]
    · rw [if_neg h, if_neg h]

@[simp] theorem page_syncSelection (s : Session σ) : s.syncSelection.page = s.page := by
  rw [syncSelection_eq]

@[simp] theorem history_syncSelection (s : Session σ) : s.syncSelection.history = s.history := by
  rw [syncSelection_eq]

/-- What an edit leaves beside the page: the source of ids, the drag and the options. -/
structure KeepsTools (s s' : Session σ) : Prop where
  ids : s'.ids = s.ids
  drag : s'.drag = s.drag
  options : s'.options = s.options

theorem KeepsTools.refl (s : Session σ) : s.KeepsTools s := ⟨rfl, rfl, rfl⟩

theorem KeepsTools.trans {s s' s'' : Session σ} (h : s.KeepsTools s') (h' : s'.KeepsTools s'') :
    s.KeepsTools s'' :=
  ⟨h'.ids.trans h.ids, h'.drag.trans h.drag, h'.options.trans h.options⟩

theorem keepsTools_syncSelection (s : Session σ) : s.KeepsTools s.syncSelection := by
  rw [syncSelection_eq]
  exact ⟨rfl, rfl, rfl⟩

theorem keepsTools_make (s : Session σ) (e : Edit) : s.KeepsTools (s.make e).2 := by
  rcases s.make_cases e with ⟨fault, h⟩ | ⟨history, page, _, h⟩
  · rw [h]
    exact .refl s
  · rw [h]
    exact ⟨rfl, rfl, rfl⟩

theorem keepsTools_removeEach (ids : List String) (s : Session σ) :
    s.KeepsTools (s.removeEach ids).2 := by
  induction ids generalizing s with
  | nil => exact .refl s
  | cons id ids ih =>
      have hmade := s.keepsTools_make (.remove id)
      rw [removeEach]
      rcases s.make_cases (.remove id) with ⟨fault, h⟩ | ⟨history, page, _, h⟩
      · rw [h]
        exact .refl s
      · rw [h] at hmade ⊢
        exact hmade.trans (ih _)

theorem keepsTools_giveUp (s : Session σ) (reason : SessionError) :
    s.KeepsTools (s.giveUp reason).2 := by
  rw [giveUp]
  split
  · exact ⟨rfl, rfl, rfl⟩
  · exact ⟨rfl, rfl, rfl⟩

theorem keepsTools_removeTags (ids : List String) (s : Session σ) :
    s.KeepsTools (s.removeTags ids).2 := by
  rw [removeTags]
  generalize hs : ({ s with history := s.history.openBatch _ } : Session σ) = opened
  have hopened : s.KeepsTools opened := by
    rw [← hs]
    exact ⟨rfl, rfl, rfl⟩
  have heach := hopened.trans (keepsTools_removeEach ids opened)
  split
  · rename_i e s' hr
    rw [hr] at heach
    exact heach.trans (s'.keepsTools_giveUp e)
  · rename_i s' hr
    rw [hr] at heach
    have hclosed : s'.KeepsTools { s' with history := s'.history.closeBatch } := ⟨rfl, rfl, rfl⟩
    exact (heach.trans hclosed).trans (keepsTools_syncSelection _)

theorem keepsTools_revert (s : Session σ) (r : Except EditFault (Option (History × Forest))) :
    s.KeepsTools (s.revert r).2 := by
  rcases r with fault | _ | ⟨history, page⟩
  · exact .refl s
  · exact s.keepsTools_syncSelection
  · have hput : s.KeepsTools { s with history := history, page := page } := ⟨rfl, rfl, rfl⟩
    exact hput.trans (keepsTools_syncSelection _)

/-- Puts a tag on the page as it is. -/
def putIn (s : Session σ) (n : Node) (destination : Option String) (spot : Spot) :
    Outcome σ String :=
  match s.placement destination spot with
  | .error e => (.error e, s)
  | .ok (parent, index) =>
      match s.make (.insert parent index n) with
      | (.error e, s') => (.error e, s')
      | (.ok (), s') => (.ok (n.ident.getD ""), s')

theorem putIn_cases (s : Session σ) (n : Node) (destination : Option String) (spot : Spot) :
    (∃ e, s.putIn n destination spot = (.error e, s)) ∨
      ∃ parent index history page,
        s.history.apply (.insert parent index n) s.page = .ok (history, page) ∧
        s.putIn n destination spot =
          (.ok (n.ident.getD ""), { s with history := history, page := page }) := by
  rw [putIn]
  cases s.placement destination spot with
  | error e => exact Or.inl ⟨e, rfl⟩
  | ok place =>
      obtain ⟨parent, index⟩ := place
      rcases s.make_cases (.insert parent index n) with ⟨fault, h⟩ | ⟨history, page, ha, h⟩
      · refine Or.inl ⟨.edit fault, ?_⟩
        simp only [h]
      · refine Or.inr ⟨parent, index, history, page, ha, ?_⟩
        simp only [h]

/-! ## 3. What comes on the page -/

variable [IdSource σ]

/-- The tag as it comes on the page, with the ids that it lacks and new ones for those that the page
    has; and the source after. -/
def entering (s : Session σ) (tag : Node) : Node × σ :=
  let named := tag.assignIds false s.ids
  let renamed := named.1.replaceIds (fun id => (s.page.find id).isSome) named.2
  (renamed.1, renamed.2.1)

/-- How many of its ids are new. -/
def entranceDraws (s : Session σ) (tag : Node) : Nat :=
  let named := tag.assignIds false s.ids
  let renamed := named.1.replaceIds (fun id => (s.page.find id).isSome) named.2
  Forest.lacking [tag] + renamed.2.2

/-- **The tag goes on the page as it enters, or nothing does.** -/
theorem addTag_cases (s : Session σ) (tag : Node) (destination : Option String) (spot : Spot) :
    (∃ e, s.addTag tag destination spot = (.error e, { s with ids := (s.entering tag).2 })) ∨
      ∃ parent index history page,
        s.history.apply (.insert parent index (s.entering tag).1) s.page = .ok (history, page) ∧
        s.addTag tag destination spot = (.ok ((s.entering tag).1.ident.getD ""),
          { s with ids := (s.entering tag).2, history := history, page := page }) :=
  putIn_cases ({ s with ids := (s.entering tag).2 } : Session σ) (s.entering tag).1 destination spot

theorem ids_addTag (s : Session σ) (tag : Node) (destination : Option String) (spot : Spot) :
    (s.addTag tag destination spot).2.ids = (s.entering tag).2 := by
  rcases s.addTag_cases tag destination spot with ⟨e, h⟩ | ⟨parent, index, history, page, _, h⟩
  · rw [h]
  · rw [h]

/-! ## 4. Ids that are drawn -/

/-- How many ids an operation takes from the source. -/
def draws (s : Session σ) : Operation → Nat
  | .addTag tag _ _ => s.entranceDraws tag
  | .addSample tag text _ _ =>
      match Element.ofTag? tag with
      | none => 0
      | some e =>
          let sample := e.sample text s.ids
          (Forest.labels [sample.1]).length +
            ({ s with ids := sample.2 } : Session σ).entranceDraws sample.1
  | .addStarter name _ _ =>
      match Starter.ofName? name with
      | none => 0
      | some t =>
          let block := t.instantiate s.ids
          (Forest.labels [t.tree]).length +
            ({ s with ids := block.2 } : Session σ).entranceDraws block.1
  | .copyTag id _ _ =>
      match s.page.find id with
      | none => 0
      | some source =>
          let copy := source.node.assignIds true s.ids
          (Forest.labels [source.node]).length +
            ({ s with ids := copy.2 } : Session σ).entranceDraws copy.1
  | .applyOutline rows => Forest.lacking (Outline.forest rows)
  | _ => 0

/-- How many ids the operations take from the source in turn. -/
def drawsAll (s : Session σ) : List Operation → Nat
  | [] => 0
  | op :: ops => s.draws op + drawsAll (s.perform op).2 ops

variable [LawfulIdSource σ]

/-- Whether an id is on the page of a session. -/
def onPage (s : Session σ) (id : String) : Bool := (s.page.find id).isSome

/-- **The ids of a tag that comes on the page**: those of its own that the page has not, and new
    ones. Of the new ones, the first replace missing ids; where the page has them, they are replaced
    in turn. -/
theorem ids_entering (s : Session σ) (tag : Node) :
    ∃ n m, s.entranceDraws tag = n + m ∧
      (Forest.ids [(s.entering tag).1]).Perm
        ((Forest.ids [tag]).filter (!s.onPage ·) ++
          ((IdSource.take n s.ids).1.filter (!s.onPage ·) ++
            (IdSource.take m (IdSource.take n s.ids).2).1)) ∧
      (s.entering tag).2 = (IdSource.take (n + m) s.ids).2 := by
  obtain ⟨hnamed, hsource⟩ := Forest.ids_assignIds [tag] s.ids
  rw [Node.assignIds_eq] at hnamed hsource
  obtain ⟨hrenamed, hstate⟩ := Forest.ids_replaceIds s.onPage [(tag.assignIds false s.ids).1]
    (tag.assignIds false s.ids).2
  rw [Node.replaceIds_eq] at hrenamed hstate
  simp only at hnamed hsource hrenamed hstate
  refine ⟨Forest.lacking [tag],
    (Forest.ids [(tag.assignIds false s.ids).1]).countP s.onPage, ?_, ?_, ?_⟩
  · show Forest.lacking [tag] + ((tag.assignIds false s.ids).1.replaceIds s.onPage
      (tag.assignIds false s.ids).2).2.2 = _
    rw [hstate]
  · refine hrenamed.trans ?_
    rw [hsource, ← List.append_assoc, ← List.filter_append]
    exact (hnamed.filter _).append_right _
  · show ((tag.assignIds false s.ids).1.replaceIds s.onPage (tag.assignIds false s.ids).2).2.1 = _
    rw [hstate, hsource, IdSource.take_add]

theorem source_entering (s : Session σ) (tag : Node) :
    (s.entering tag).2 = (IdSource.take (s.entranceDraws tag) s.ids).2 := by
  obtain ⟨n, m, hdraws, _, hsource⟩ := s.ids_entering tag
  rw [hdraws, hsource]

end Session

/-! ## 5. Tags that come with new ids -/

/-- A tag all of whose ids were taken from a source: as many as asked for, in pre-order. -/
def Node.DrawnFrom {σ : Type} [IdSource σ] (source : σ) (k : Nat) (drawn : Node × σ) : Prop :=
  Forest.ids [drawn.1] = (IdSource.take k source).1 ∧ drawn.2 = (IdSource.take k source).2

section Drawn

variable {σ : Type} [IdSource σ] [LawfulIdSource σ]

theorem Node.drawn_assignIds (n : Node) (source : σ) :
    Node.DrawnFrom source (Forest.labels [n]).length (n.assignIds true source) := by
  obtain ⟨hids, hsource⟩ := Forest.ids_assignIds_force [n] source
  rw [Node.assignIds_eq] at hids hsource
  exact ⟨hids, hsource⟩

theorem Starter.drawn_instantiate (t : Starter) (source : σ) :
    Node.DrawnFrom source (Forest.labels [t.tree]).length (t.instantiate source) :=
  t.tree.drawn_assignIds source

omit [IdSource σ] [LawfulIdSource σ] in
/-- Attributes change neither the id nor the children. -/
theorem Node.foldl_withAttribute (entries : List (String × Json)) (n : Node) :
    (entries.foldl (fun n e => n.withAttribute e.1 e.2) n).ident = n.ident ∧
      (entries.foldl (fun n e => n.withAttribute e.1 e.2) n).list = n.list := by
  induction entries generalizing n with
  | nil => exact ⟨rfl, rfl⟩
  | cons e entries ih => exact ih (n.withAttribute e.1 e.2)

theorem Element.drawn_sample (e : Element) (text : String) (source : σ) :
    Node.DrawnFrom source (Forest.labels [(e.sample text source).1]).length
      (e.sample text source) := by
  have hown : ((Node.ofTag e.tag).withId (IdSource.next source).1).ident =
      some (IdSource.next source).1 := Label.ident_withId_next _ source
  rw [sample]
  cases e.sampleAttributes with
  | some entries =>
      obtain ⟨hident, hlist⟩ := Node.foldl_withAttribute entries
        ((Node.ofTag e.tag).withId (IdSource.next source).1)
      have hchildren : (entries.foldl (fun n e => n.withAttribute e.1 e.2)
          ((Node.ofTag e.tag).withId (IdSource.next source).1)).children = [] := by
        rw [Node.children, hlist]
        rfl
      refine ⟨?_, ?_⟩
      · simp only [Forest.labels_cons, Forest.labels_nil, Forest.ids_cons, Forest.ids_nil, hident,
          hchildren, hown]
        rfl
      · simp only [Forest.labels_cons, Forest.labels_nil, hchildren]
        rfl
  | none =>
      have hinner : ((Node.ofText text).withId (IdSource.next (IdSource.next source).2).1).ident =
          some (IdSource.next (IdSource.next source).2).1 := Label.ident_withId_next _ _
      have hchildren : (((Node.ofTag e.tag).withId (IdSource.next source).1).withChild
          ((Node.ofText text).withId (IdSource.next (IdSource.next source).2).1)).children =
          [(Node.ofText text).withId (IdSource.next (IdSource.next source).2).1] := rfl
      have hident : (((Node.ofTag e.tag).withId (IdSource.next source).1).withChild
          ((Node.ofText text).withId (IdSource.next (IdSource.next source).2).1)).ident =
          some (IdSource.next source).1 := hown
      have hleaf : ((Node.ofText text).withId (IdSource.next (IdSource.next source).2).1).children =
          [] := rfl
      refine ⟨?_, ?_⟩
      · simp only [Forest.labels_cons, Forest.labels_nil, Forest.ids_cons, Forest.ids_nil, hident,
          hchildren, hinner, hleaf]
        rfl
      · simp only [Forest.labels_cons, Forest.labels_nil, hchildren, hleaf]
        rfl

/-- **The source after an operation** has handed out as many ids as the operation draws. -/
theorem Session.ids_perform (s : Session σ) (op : Operation) :
    (s.perform op).2.ids = (IdSource.take (s.draws op) s.ids).2 := by
  cases op with
  | select id =>
      rw [perform, select]
      cases s.page.find id with
      | none => rfl
      | some found => rfl
  | clearSelection => rfl
  | addTag tag destination spot =>
      exact (s.ids_addTag tag destination spot).trans (s.source_entering tag)
  | addSample tag text destination spot =>
      simp only [perform, Outcome.plain, addSample, draws]
      cases Element.ofTag? tag with
      | none => rfl
      | some e =>
          obtain ⟨_, hsource⟩ := e.drawn_sample text s.ids
          simp only
          rw [ids_addTag, source_entering, IdSource.take_add, ← hsource]
  | addStarter name destination spot =>
      simp only [perform, Outcome.plain, addStarter, draws]
      cases Starter.ofName? name with
      | none => rfl
      | some t =>
          obtain ⟨_, hsource⟩ := t.drawn_instantiate s.ids
          simp only
          rw [ids_addTag, source_entering, IdSource.take_add, ← hsource]
  | moveTag id destination spot =>
      simp only [perform, moveTag, draws]
      cases s.page.find id with
      | none => rfl
      | some source =>
          simp only
          cases s.placement (some destination) spot with
          | error e => rfl
          | ok place => exact (s.keepsTools_make _).ids
  | copyTag id destination spot =>
      simp only [perform, Outcome.plain, copyTag, draws]
      cases s.page.find id with
      | none => rfl
      | some source =>
          obtain ⟨_, hsource⟩ := source.node.drawn_assignIds s.ids
          simp only
          rw [ids_addTag, source_entering, IdSource.take_add, ← hsource]
  | removeTag id =>
      simp only [perform, removeTag]
      rcases s.make_cases (.remove id) with ⟨fault, h⟩ | ⟨history, page, _, h⟩
      · rw [h]
        rfl
      · rw [h]
        exact (keepsTools_syncSelection _).ids
  | removeTags ids => exact (keepsTools_removeTags ids s).ids
  | setAttribute id name value => exact (s.keepsTools_make _).ids
  | setStyle id style value =>
      simp only [perform, setStyle]
      cases s.page.find id with
      | none => rfl
      | some found => exact (s.keepsTools_make _).ids
  | setText id text => exact (s.keepsTools_make _).ids
  | applyOutline rows =>
      obtain ⟨_, hsource⟩ := Forest.ids_assignIds (Outline.forest rows) s.ids
      simp only [perform, applyOutline]
      rcases make_cases ({ s with ids := (Forest.assignIds false (Outline.forest rows) s.ids).2 } :
          Session σ) (.replacePage (Forest.assignIds false (Outline.forest rows) s.ids).1) with
        ⟨fault, h⟩ | ⟨history, page, _, h⟩
      · rw [h]
        exact hsource
      · rw [h]
        exact (keepsTools_syncSelection _).ids.trans hsource
  | undo => exact (s.keepsTools_revert _).ids
  | redo => exact (s.keepsTools_revert _).ids
  | beginDrag source => rfl
  | hover now pointer hovered tag =>
      simp only [perform, hover]
      cases s.drag with
      | none => rfl
      | some drag => rfl
  | endDrag => rfl

end Drawn

end Pagewright
