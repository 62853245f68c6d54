import Pagewright.Proofs.Editor.Holding

/-!
# Every node has an id

A page may be opened with ids that are missing or empty, and a tag or an outline may be given so.
From the opening on, no node is without an id: not on the page, and not in what the history keeps.

* `Forest.Named` -- every node has an id, whether or not two have the same; giving ids makes it so
  (`named_assignIds`), edits keep it (`Named.durable`);
* `Edit.restore_missingId` -- **where an id is missed**: only in a tag that is itself put in without
  one, and taking a tag back only where its parent has none;
* `Session.named_trail` -- **along every run of a session every node has an id**, and no operation
  is refused for want of one.
-/

namespace Pagewright

open Forest

/-! ## 1. Pages on which every node has an id -/

/-- Every node has an id; two may have the same. -/
def Forest.Named (ns : Forest) : Prop := ∀ l ∈ labels ns, l.ident ≠ none

/-- What is changed label by label has what every changed label has. -/
theorem Label.forall_mem_thread {σ : Type} {f : Label → σ → Label × σ} {p q : Label → Prop}
    (hf : ∀ l s, p l → q (f l s).1) {ls : List Label} (hls : ∀ l ∈ ls, p l) (s : σ) :
    ∀ l ∈ (Label.thread f ls s).1, q l := by
  induction ls generalizing s with
  | nil => intro l hl; cases hl
  | cons l ls ih =>
      rw [List.forall_mem_cons] at hls
      rw [Label.thread]
      exact List.forall_mem_cons.mpr ⟨hf l s hls.1, ih hls.2 _⟩

namespace Forest

variable {ns ms as bs : Forest}

theorem forall_labels_relabel {σ : Type} {f : Label → σ → Label × σ} {p q : Label → Prop}
    (hf : ∀ l s, p l → q (f l s).1) (hns : ∀ l ∈ labels ns, p l) (s : σ) :
    ∀ l ∈ labels (relabel f ns s).1, q l := by
  have h := congrArg Prod.fst (labels_relabel f ns s)
  simp only at h
  rw [h]
  exact Label.forall_mem_thread hf hns s

theorem named_iff : Named ns ↔ none ∉ (labels ns).map Label.ident := by
  rw [Named, List.mem_map]
  constructor
  · rintro h ⟨l, hl, hnone⟩
    exact h l hl hnone
  · intro h l hl hnone
    exact h ⟨l, hl, hnone⟩

/-- Only the ids count. -/
theorem Named.of_idents (h : Named ns)
    (e : (labels ms).map Label.ident = (labels ns).map Label.ident) : Named ms := by
  rw [named_iff, e, ← named_iff]
  exact h

theorem named_iff_of_perm (h : (labels ns).Perm (labels as ++ labels bs)) :
    Named ns ↔ Named as ∧ Named bs := by
  rw [Named, Named, Named, ← List.forall_mem_append]
  exact forall_congr' fun l => imp_congr_left h.mem_iff

theorem Named.ident_of_nodeAt (h : Named ns) {p : List Nat} {n : Node}
    (hn : ns.nodeAt p = some n) : n.ident ≠ none :=
  h n.label (label_mem_of_nodeAt hn)

section Naming

variable {σ : Type} [IdSource σ] [LawfulIdSource σ]

/-- **Giving ids leaves no node without one.** -/
theorem named_assignIds (force : Bool) (ns : Forest) (source : σ) :
    Named (ns.assignIds force source).1 := by
  refine forall_labels_relabel (p := fun _ => True) (fun l s _ => ?_) (fun _ _ => trivial) source
  refine (Label.hands_assignId force).ident_ne_none s fun hnone => ?_
  rw [hnone, Option.isNone_none, Bool.or_true]

/-- Giving new ids for those that are taken leaves no node without one. -/
theorem named_replaceIds (taken : String → Bool) (h : Named ns) (source : σ) :
    Named (ns.replaceIds taken source).1 := by
  refine forall_labels_relabel (p := fun l => l.ident ≠ none) (fun l s hl => ?_) h (source, 0)
  exact (Label.hands_replaceId taken).ident_ne_none s fun hnone => absurd hnone hl

end Naming

theorem Named.severable : Severable Named where
  same e h := h.of_idents e
  perm h hns l hl := hns l (h.mem_iff.mp hl)
  parts h hns := (named_iff_of_perm h).mp hns
  join h has hbs _ := (named_iff_of_perm h).mpr ⟨has, hbs⟩

/-- **Edits keep every node named**, and so does whatever their inverses put back. -/
theorem Named.durable : Durable Named := Named.severable.durable

end Forest

/-! ## 2. Where an id is missed -/

namespace Edit

variable {page : Forest} {e : Edit} {policy : Bool} {fault : EditFault} {tag : String}

/-- A tag that is looked for is there, or it is what is missing. -/
theorem target_error {id : String} (h : target page id = .error fault) :
    fault = .tagNotFound id := by
  rw [target] at h
  cases hf : page.find id with
  | none => rw [hf] at h; cases h; rfl
  | some found => rw [hf] at h; cases h

theorem map_error {α β : Type} {x : Except EditFault α} {f : α → β}
    (h : x.map f = .error fault) : x = .error fault := by
  cases x with
  | error fault' => cases h; rfl
  | ok a => cases h

theorem bind_error {α β : Type} {x : Except EditFault α} {f : α → Except EditFault β}
    (h : x.bind f = .error fault) : x = .error fault ∨ ∃ a, x = .ok a ∧ f a = .error fault := by
  cases x with
  | error fault' => exact Or.inl (by cases h; rfl)
  | ok a => exact Or.inr ⟨a, rfl, h⟩

/-- A parent is missing, or takes no children. -/
theorem checkParent_error {parent : Option String}
    (h : checkParent page policy parent = .error fault) :
    (∃ id, fault = .parentNotFound id) ∨ ∃ name, fault = .takesNoChildren name := by
  cases parent with
  | none => cases h
  | some id =>
      rw [checkParent] at h
      cases hf : page.find id with
      | none => rw [hf] at h; cases h; exact Or.inl ⟨id, rfl⟩
      | some found =>
          simp only [hf] at h
          split at h
          · cases h
            exact Or.inr ⟨_, rfl⟩
          · cases h

/-- An id is on the page already. -/
theorem checkNew_error {ids : List String} (h : checkNew page ids = .error fault) :
    ∃ id ∈ ids, fault = .duplicateId id := by
  induction ids with
  | nil => cases h
  | cons id ids ih =>
      rw [checkNew] at h
      split at h
      · cases h
        exact ⟨id, List.mem_cons_self, rfl⟩
      · obtain ⟨id', hmem, hfault⟩ := ih h
        exact ⟨id', List.mem_cons_of_mem id hmem, hfault⟩

/-- A tag would go below itself. -/
theorem checkAcyclic_error {n : Node} {parent : Option String}
    (h : checkAcyclic n parent = .error fault) : fault = .cycle := by
  cases parent with
  | none => cases h
  | some id =>
      rw [checkAcyclic] at h
      split at h
      · cases h; rfl
      · cases h

/-- The edit puts a tag in that has itself no id. -/
def PutsNameless (e : Edit) : Prop := ∃ parent k n, e = insert parent k n ∧ n.ident = none

/-- **The check misses an id only in a tag that is put in without one.** -/
theorem check_missingId (h : check page policy e = .error (.missingId tag)) :
    e.PutsNameless := by
  cases e with
  | insert parent k n =>
      refine ⟨parent, k, n, rfl, ?_⟩
      cases hid : n.ident with
      | none => rfl
      | some id =>
          simp only [check, hid, Option.isNone_some] at h
          cases hnew : checkNew page (Forest.ids [n]) with
          | error fault =>
              obtain ⟨id', _, rfl⟩ := checkNew_error hnew
              rw [hnew] at h
              cases h
          | ok u =>
              rw [hnew] at h
              rcases checkParent_error h with ⟨_, hno⟩ | ⟨_, hno⟩ <;> cases hno
  | move id parent k =>
      simp only [check] at h
      cases ht : target page id with
      | error fault =>
          obtain rfl := target_error ht
          rw [ht] at h
          cases h
      | ok found =>
          simp only [ht] at h
          cases hc : checkAcyclic found.node parent with
          | error fault =>
              obtain rfl := checkAcyclic_error hc
              rw [hc] at h
              cases h
          | ok u =>
              rw [hc] at h
              rcases checkParent_error h with ⟨_, hno⟩ | ⟨_, hno⟩ <;> cases hno
  | remove id => cases target_error (map_error h)
  | setAttribute id name value => cases target_error (map_error h)
  | setText id text =>
      simp only [check] at h
      cases ht : target page id with
      | error fault =>
          obtain rfl := target_error ht
          rw [ht] at h
          cases h
      | ok found =>
          simp only [ht] at h
          split at h <;> cases h
  | replacePage nodes => cases h

/-- The parent of a tag misses its id only where it has none. -/
theorem parentId_error {found : Match} (h : parentId found = .error fault) :
    ∃ parent, found.parent = some parent ∧ parent.ident = none := by
  rw [parentId] at h
  cases hp : found.parent with
  | none => rw [hp] at h; cases h
  | some parent =>
      refine ⟨parent, rfl, ?_⟩
      cases hid : parent.ident with
      | none => rfl
      | some id => simp only [hp, hid] at h; cases h

/-- The parent of what is found is on the page. -/
theorem parentId_of_named (hpage : Named page) {id : String} {found : Match}
    (hf : page.find id = some found) : parentId found ≠ .error fault := by
  intro h
  obtain ⟨parent, hparent, hnone⟩ := parentId_error h
  obtain ⟨q, _, _, _, hat⟩ := pathOf_of_find hf
  exact hpage.ident_of_nodeAt (hat.symm.trans hparent) hnone

/-- **On a page where every node has an id, taking an edit back misses one only in a tag that is put
    in without one.** -/
theorem inverse_missingId (hpage : Named page) (h : e.inverse page = .error (.missingId tag)) :
    e.PutsNameless := by
  cases e with
  | insert parent k n =>
      refine ⟨parent, k, n, rfl, ?_⟩
      cases hid : n.ident with
      | none => rfl
      | some id => rw [inverse, hid] at h; cases h
  | move id parent k =>
      rcases bind_error h with ht | ⟨found, ht, h⟩
      · cases target_error ht
      · rcases bind_error h with hp | ⟨old, _, h⟩
        · exact absurd hp (parentId_of_named hpage (find_of_target_eq ht))
        · cases h
  | remove id =>
      rcases bind_error h with ht | ⟨found, ht, h⟩
      · cases target_error ht
      · rcases bind_error h with hp | ⟨old, _, h⟩
        · exact absurd hp (parentId_of_named hpage (find_of_target_eq ht))
        · cases h
  | setAttribute id name value =>
      rcases bind_error h with ht | ⟨found, _, h⟩
      · cases target_error ht
      · cases h
  | setText id text =>
      rcases bind_error h with ht | ⟨found, _, h⟩
      · cases target_error ht
      · cases h
  | replacePage nodes => cases h

/-- An edit that brings in named nodes alone puts no nameless tag in. -/
theorem not_putsNameless (he : e.Brings Named) : ¬ e.PutsNameless := by
  rintro ⟨parent, k, n, rfl, hnone⟩
  exact Named.ident_of_nodeAt (p := [0]) he rfl hnone

theorem restore_missingId (he : e.Brings Named) : e.restore page ≠ .error (.missingId tag) := by
  intro h
  rw [restore] at h
  cases hc : check page false e with
  | error fault =>
      rw [hc] at h
      cases h
      exact not_putsNameless he (check_missingId hc)
  | ok u =>
      obtain ⟨page', hp⟩ := exists_perform hc
      rw [hc, hp] at h
      cases h

/-- Replaying what brings in named nodes alone misses no id. -/
theorem replay_missingId {es : List Edit} (hes : ∀ e ∈ es, e.Brings Named) :
    replay page es ≠ .error (.missingId tag) := by
  induction es generalizing page with
  | nil => intro h; cases h
  | cons e es ih =>
      rw [List.forall_mem_cons] at hes
      intro h
      rw [replay] at h
      cases hr : e.restore page with
      | error fault =>
          rw [hr] at h
          cases h
          exact restore_missingId hes.1 hr
      | ok between =>
          rw [hr] at h
          exact ih hes.2 h

end Edit

/-- An edit that brings in named nodes alone is not refused for want of an id, where every node of
    the page has one. -/
theorem History.apply_missingId {h : History} {page : Forest} {e : Edit} {tag : String}
    (hpage : Named page) (he : e.Brings Named) : h.apply e page ≠ .error (.missingId tag) := by
  intro ha
  rw [apply, applyTo, Edit.validate, Edit.applyTo] at ha
  cases hc : e.check page true with
  | error fault =>
      simp only [hc] at ha
      cases ha
      exact Edit.not_putsNameless he (Edit.check_missingId hc)
  | ok u =>
      obtain ⟨page', hp⟩ := Edit.exists_perform hc
      simp only [hc, Edit.carryOut_of_perform hp] at ha
      cases hi : e.inverse page with
      | error fault =>
          simp only [hi] at ha
          cases ha
          exact Edit.not_putsNameless he (Edit.inverse_missingId hpage hi)
      | ok inv =>
          simp only [hi] at ha
          split at ha
          · rename_i hmade
            split at hmade <;> cases hmade
          · cases ha

namespace Draft

variable {d : Draft} {tag : String}

/-- **A request misses no id**, where every node has one. -/
theorem serve_missingId (h : d.Holds Named) {r : Request} (hr : r.Brings Named) :
    (d.serve r).1 ≠ .failed (.missingId tag) := by
  cases r with
  | edit e =>
      simp only [serve]
      cases ha : d.history.apply e d.page with
      | error fault =>
          rintro ⟨⟩
          exact History.apply_missingId h.page hr ha
      | ok made => intro hno; cases hno
  | openBatch description => intro hno; cases hno
  | closeBatch => intro hno; cases hno
  | abort =>
      simp only [serve, History.abort]
      cases hb : d.history.batch with
      | none => intro hno; cases hno
      | some s =>
          simp only
          cases hp : Edit.replay d.page s.inverses with
          | error fault =>
              rintro ⟨⟩
              exact Edit.replay_missingId (h.history.batch s hb).inverses hp
          | ok page => intro hno; cases hno
  | undo =>
      simp only [serve, History.undo]
      cases hs : d.history.past with
      | nil => intro hno; cases hno
      | cons s past =>
          simp only
          cases hp : Edit.replay d.page s.inverses with
          | error fault =>
              rintro ⟨⟩
              have hstep := h.history.past s (by rw [hs]; exact List.mem_cons_self)
              exact Edit.replay_missingId hstep.inverses hp
          | ok page => intro hno; cases hno
  | redo =>
      simp only [serve, History.redo]
      cases hs : d.history.future with
      | nil => intro hno; cases hno
      | cons s future =>
          simp only
          cases hp : Edit.replay d.page s.edits with
          | error fault =>
              rintro ⟨⟩
              have hstep := h.history.future s (by rw [hs]; exact List.mem_cons_self)
              exact Edit.replay_missingId hstep.edits hp
          | ok page => intro hno; cases hno

/-- Requests in turn miss none. -/
theorem replies_missingId (h : d.Holds Named) {rs : List Request}
    (hrs : ∀ r ∈ rs, r.Brings Named) : .failed (.missingId tag) ∉ d.replies rs := by
  induction rs generalizing d with
  | nil => intro hno; cases hno
  | cons r rs ih =>
      rw [List.forall_mem_cons] at hrs
      rw [replies, List.mem_cons, not_or]
      exact ⟨(serve_missingId h hrs.1).symm, ih (h.serve Named.durable hrs.1) hrs.2⟩

end Draft

/-! ## 3. Sessions -/

namespace Session

variable {σ : Type} [IdSource σ] [LawfulIdSource σ]

/-- **A tag enters with an id on every node**, whatever ids it comes with. -/
theorem named_entering (s : Session σ) (tag : Node) : Named [(s.entering tag).1] := by
  have hnamed := named_assignIds false [tag] s.ids
  rw [Node.assignIds_eq] at hnamed
  have hrenamed := named_replaceIds s.onPage hnamed (tag.assignIds false s.ids).2
  rw [Node.replaceIds_eq] at hrenamed
  exact hrenamed

/-- Every operation brings named nodes alone. -/
theorem brings_named (s : Session σ) (op : Operation) : s.Brings Named op where
  tag tag ids _ := named_entering { s with ids := ids } tag
  page rows _ := named_assignIds false (Outline.forest rows) s.ids

/-- Where every node has an id, no operation is refused for want of one. -/
theorem perform_missingId {s : Session σ} (h : s.draft.Holds Named) (op : Operation)
    (tag : String) : (s.perform op).1 ≠ .error (.edit (.missingId tag)) := by
  obtain ⟨rs, hasks, hexplains⟩ := s.perform_asks op
  have hbrings := hasks.brings (s.brings_named op)
  exact fun hfails => Draft.replies_missingId h hbrings (hexplains.fault _ hfails)

/-- **Every node has an id, along every run.** A page is opened, whatever ids it lacks or has twice,
    with a source that hands out no empty id, and operations are done in turn, failures included.
    Then on every page on the way every node has an id, so has every node in the steps that can be
    undone or made again, and no operation is refused because an id is missing. -/
theorem named_trail (page : Forest) (options : EditorOptions) (source : σ)
    (ops : List Operation) :
    ∀ s ∈ (ofPage page options source).trail ops,
      Named s.page ∧
      (∀ step ∈ s.history.past ++ s.history.future, ∀ e ∈ step.edits ++ step.inverses,
        e.Brings Named) ∧
      ∀ (op : Operation) (tag : String), (s.perform op).1 ≠ .error (.edit (.missingId tag)) := by
  intro s hs
  have hopened : (ofPage page options source).draft.Holds Named :=
    ⟨named_assignIds false page source, .empty options.undoLevels⟩
  have h := holds_trail Named.durable hopened ops (fun s' _ op _ => s'.brings_named op) s hs
  refine ⟨h.page, fun step hstep e he => ?_, perform_missingId h⟩
  have hholds : step.Holds Named := by
    rcases List.mem_append.mp hstep with hpast | hfuture
    · exact h.history.past step hpast
    · exact h.history.future step hfuture
  rcases List.mem_append.mp he with hedit | hinverse
  · exact hholds.edits e hedit
  · exact hholds.inverses e hinverse

/-- A page on which a node has no id, one has the empty id, and two have the same. -/
def untidy : Forest :=
  [Node.ofTag "p", (Node.ofTag "p").withId "", (Node.ofTag "p").withId "x",
    (Node.ofTag "p").withId "x"]

/-- On this page, with a nameless tag added and a removal that cannot be taken back, no id is ever
    missed. -/
theorem named_untidy : ¬ Named untidy ∧
    ∀ s ∈ (ofPage untidy .standard Numbering.fresh).trail
        [.addTag (.mk (.ofTag "form") (some [.ofText "Name"])) (some "x") .after,
          .removeTags ["x", "missing"], .undo, .redo],
      Named s.page ∧ ∀ (op : Operation) (tag : String),
        (s.perform op).1 ≠ .error (.edit (.missingId tag)) := by
  have hfirst : Label.ofTag "p" ∈ labels untidy := by
    rw [untidy, labels_cons]
    exact List.mem_cons_self
  refine ⟨fun h => h (Label.ofTag "p") hfirst rfl, fun s hs => ?_⟩
  obtain ⟨hpage, _, hfault⟩ := named_trail untidy .standard Numbering.fresh _ s hs
  exact ⟨hpage, hfault⟩

end Session

end Pagewright
