import Mathlib.Data.List.Pairwise
import Pagewright.Proofs.Editor.Steady
import Pagewright.Proofs.Page.Conforming

/-!
# Pages stay conforming

Which tags take children is checked when an edit is made, and not when it is replayed. A page on
which only tags that take children have any stays so nevertheless.

* `Edit.apply_conforms` -- an edit with the full check keeps a page conforming, on a page with
  distinct ids: the parent that was checked is the one that the tag goes to;
* `Conforms.steady` -- so that it stays along runs (`Session.steady_trail`);
* what operations bring: samples and starters conform, and so do copies of what is on the page;
* `Session.conforms_trail` -- **a conforming page stays conforming along every run**, through undo
  and redo and removals that are taken back.
-/

namespace Pagewright

open Forest

/-! ## 1. Edits -/

namespace Forest

variable {page ns ms rest : Forest} {parent : Option String} {k : Nat} {t : Node} {id : String}

/-- Where ids are distinct, an id belongs to one label alone. -/
theorem label_eq_of_ident (hd : (ids page).Nodup) {l l' : Label} (hl : l ∈ labels page)
    (hl' : l' ∈ labels page) (hid : l.ident = some id) (hid' : l'.ident = some id) : l = l' := by
  by_contra hne
  have hpairs := List.pairwise_filterMap.mp hd
  have : Std.Symm fun a b : Label =>
      ∀ i, a.ident = some i → ∀ j, b.ident = some j → i ≠ j :=
    ⟨fun a b hab i hi j hj e => hab j hj i hi e.symm⟩
  exact hpairs.forall hl hl' hne id hid id hid' rfl

/-- What is found has its label on the page. -/
theorem label_of_find {found : Match} (h : page.find id = some found) :
    found.node.label ∈ labels page ∧ found.node.label.ident = some id := by
  obtain ⟨q, _, hn, hid, _⟩ := pathOf_of_find h
  exact ⟨label_mem_of_nodeAt hn, hid⟩

/-- **Putting in keeps a page conforming**, where the parent takes children. -/
theorem Conforms.attach (h : Conforms ns) (ht : Conforms [t])
    (hparent : ∀ id found, parent = some id → ns.find id = some found →
      acceptsChildren found.node.tag = true)
    (ha : ns.attach parent k t = .ok ms) : Conforms ms := by
  obtain ⟨q, hq, hm⟩ := exists_of_attach ha
  obtain ⟨l, hl⟩ := listAt_of_listPath hq
  have hl' : Conforms l := by
    cases parent with
    | none =>
        cases hq
        rw [listAt_nil, Option.some.injEq] at hl
        rw [← hl]
        exact h
    | some id =>
        obtain ⟨n, hn, _⟩ := nodeAt_of_pathOf hq
        rw [listAt_of_nodeAt hn, Option.some.injEq] at hl
        rw [← hl]
        exact (conforms_singleton.mp (h.of_nodeAt hn)).2
  refine h.modifyChildrenAt hl (hl'.insertAt ht k) (fun n hn => ?_) hm
  cases parent with
  | none =>
      cases hq
      rw [nodeAt_nil] at hn
      cases hn
  | some id =>
      obtain ⟨m, _, _, _, hm, _, hf⟩ := find_of_pathOf hq
      rw [hn, Option.some.injEq] at hm
      rw [hm]
      exact hparent id _ rfl hf

theorem Conforms.detach (h : Conforms ns) (hd : ns.detach id = .ok (t, rest)) :
    Conforms [t] ∧ Conforms rest := by
  obtain ⟨_, _, ht⟩ := exists_of_detach hd
  exact h.takeAt ht

theorem Conforms.modifyLabel {f : Label → Label} (hf : ∀ l, (f l).tag = l.tag) (h : Conforms ns)
    (hm : ns.modifyLabel id f = .ok ms) : Conforms ms := by
  obtain ⟨_, _, hm⟩ := exists_of_modifyLabel hm
  exact h.modifyAt hf hm

end Forest

namespace Edit

variable {page page' : Forest} {e : Edit}

/-- What the full check of a parent says. -/
theorem accepts_of_checkParent {parent : Option String}
    (h : checkParent page true parent = .ok ()) {id : String} {found : Match}
    (hparent : parent = some id) (hf : page.find id = some found) :
    acceptsChildren found.node.tag = true := by
  subst hparent
  simp only [checkParent, hf, Bool.true_and] at h
  split at h
  · cases h
  · rename_i htakes
    simpa using htakes

/-- **An edit with the full check keeps a page conforming.** -/
theorem apply_conforms (hid : page.Identified) (hpage : Conforms page) (he : e.Brings Conforms)
    (h : e.apply page = .ok page') : Conforms page' := by
  obtain ⟨hcheck, hperform⟩ := (apply_eq_ok_iff e page page').mp h
  cases e with
  | insert parent k tag =>
      obtain ⟨_, _, hparent⟩ := check_insert hcheck
      exact hpage.attach he (fun _ _ => accepts_of_checkParent hparent) hperform
  | move id parent k =>
      obtain ⟨found, hf, _, hparent⟩ := check_move hcheck
      obtain ⟨t, rest, hd, ha⟩ := perform_move hperform
      obtain ⟨ht, hrest⟩ := hpage.detach hd
      refine hrest.attach ht (fun pid found' hpid hf' => ?_) ha
      -- the parent was checked on the page; with the tag taken out, the same id finds it again
      obtain ⟨old, hold⟩ : ∃ old, page.find pid = some old :=
        Option.isSome_iff_exists.mp
          ((find_isSome_iff page pid).mpr (mem_ids_of_checkParent hparent pid hpid))
      obtain ⟨hmem, hident⟩ := label_of_find hold
      obtain ⟨hmem', hident'⟩ := label_of_find hf'
      have hkept : found'.node.label ∈ labels page :=
        (labels_detach hd).mem_iff.mpr (List.mem_append_right _ hmem')
      have hsame := label_eq_of_ident hid.distinct hkept hmem hident' hident
      rw [Node.tag, hsame]
      exact accepts_of_checkParent hparent hpid hold
  | remove id =>
      obtain ⟨t, hd⟩ := perform_remove hperform
      exact (hpage.detach hd).2
  | setAttribute id name value =>
      refine hpage.modifyLabel (f := (·.setAttribute name value)) (fun l => ?_) hperform
      obtain ⟨attr, hattr⟩ := l.setAttribute_eq name value
      rw [hattr]
  | setText id text =>
      exact hpage.modifyLabel (f := fun l => { l with text := some text }) (fun _ => rfl) hperform
  | replacePage nodes =>
      cases hperform
      exact he

end Edit

/-- **Conforming stays along runs.** -/
theorem Forest.Conforms.steady : Steady Conforms where
  alike ha h := h.of_alike ha
  apply := Edit.apply_conforms

/-! ## 2. What comes on a page -/

section Coming

variable {σ : Type} [IdSource σ]

theorem Forest.Conforms.assignIds {ns : Forest} (h : Conforms ns) (force : Bool) (source : σ) :
    Conforms (ns.assignIds force source).1 := by
  refine h.relabel (fun l s => ?_) source
  obtain ⟨id, hid⟩ := (Label.hands_assignId force).same l s
  rw [hid]

theorem Forest.Conforms.replaceIds {ns : Forest} (h : Conforms ns) (taken : String → Bool)
    (source : σ) : Conforms (ns.replaceIds taken source).1 := by
  refine h.relabel (fun l s => ?_) (source, 0)
  obtain ⟨id, hid⟩ := (Label.hands_replaceId taken).same l s
  rw [hid]

theorem Node.conforms_assignIds {n : Node} (h : Conforms [n]) (force : Bool) (source : σ) :
    Conforms [(n.assignIds force source).1] := by
  have h' := h.assignIds force source
  rw [Node.assignIds_eq] at h'
  exact h'

/-- A tag that conforms enters as one. -/
theorem Session.conforms_entering (s : Session σ) {tag : Node} (h : Conforms [tag]) :
    Conforms [(s.entering tag).1] := by
  have hrenamed := (Node.conforms_assignIds h false s.ids).replaceIds s.onPage
    (tag.assignIds false s.ids).2
  rw [Node.replaceIds_eq] at hrenamed
  exact hrenamed

/-- An element whose sample has a text inside takes children. -/
theorem Element.holdsChildren_of_sample {e : Element} (h : e.sampleAttributes = none) :
    e.holdsChildren = true := by
  cases e with
  | table => cases h
  | image => cases h
  | imageInput => cases h
  | input => cases h
  | radioGroup => cases h
  | _ => rfl

/-- **Every sample conforms.** -/
theorem Element.conforms_sample (e : Element) (text : String) (source : σ) :
    Conforms [(e.sample text source).1] := by
  rw [Element.sample]
  cases he : e.sampleAttributes with
  | some entries =>
      have hlist := (Node.foldl_withAttribute entries
        ((Node.ofTag e.tag).withId (IdSource.next source).1)).2
      have hleaf : (entries.foldl (fun n entry => n.withAttribute entry.1 entry.2)
          ((Node.ofTag e.tag).withId (IdSource.next source).1)).children = [] := by
        rw [Node.children, hlist]
        rfl
      rw [conforms_singleton, hleaf]
      exact ⟨fun hno => absurd hleaf hno, conforms_nil⟩
  | none =>
      have htakes : acceptsChildren e.tag = true := by
        rw [acceptsChildren, Element.ofTag?_eq_some_iff.mpr rfl, Option.any_some]
        exact e.holdsChildren_of_sample he
      refine conforms_singleton.mpr ⟨fun _ => htakes, ?_⟩
      exact conforms_singleton.mpr ⟨fun hno => absurd rfl hno, conforms_nil⟩

/-- **Every starter conforms.** -/
theorem Starter.conforms_tree (t : Starter) : Conforms [t.tree] := by
  cases t <;> decide

end Coming

/-! ## 3. Sessions -/

/-- What is given to an operation from outside: a tag that is added, or the page that an outline
    stands for. -/
def Operation.given : Operation → Forest
  | .addTag tag _ _ => [tag]
  | .applyOutline rows => Outline.forest rows
  | _ => []

namespace Session

variable {σ : Type} [IdSource σ]

/-- **What comes on a conforming page conforms**, where what is given from outside does. -/
theorem brings_conforming {s : Session σ} (hpage : Conforms s.page) {op : Operation}
    (hop : Conforms op.given) : s.Brings Conforms op where
  tag tag ids coming := by
    refine conforms_entering _ ?_
    cases op with
    | addTag tag' destination spot =>
        cases coming
        exact hop
    | addSample name text destination spot =>
        obtain ⟨e, _, he⟩ := Option.map_eq_some_iff.mp coming
        have hsample := e.conforms_sample text s.ids
        rw [he] at hsample
        exact hsample
    | addStarter name destination spot =>
        obtain ⟨t, _, ht⟩ := Option.map_eq_some_iff.mp coming
        have hblock := Node.conforms_assignIds t.conforms_tree true s.ids
        rw [← Starter.instantiate, ht] at hblock
        exact hblock
    | copyTag id destination spot =>
        obtain ⟨found, hf, hcopy⟩ := Option.map_eq_some_iff.mp coming
        obtain ⟨q, _, hn, _, _⟩ := pathOf_of_find hf
        have hsource := Node.conforms_assignIds (hpage.of_nodeAt hn) true s.ids
        rw [hcopy] at hsource
        exact hsource
    | _ => cases coming
  page rows hrows := by
    subst hrows
    exact Conforms.assignIds hop false s.ids

/-- **A conforming page stays conforming.** A page on which only tags that take children have any is
    opened, with any source of ids, and operations are done in turn, failures included; the tags
    that are added and the pages that outlines stand for conform, and on every page on the way every
    node has an id and no two have the same. Then every page on the way conforms, whatever was
    undone, made again, or taken back. -/
theorem conforms_trail {page : Forest} (hpage : Conforms page) (options : EditorOptions)
    (source : σ) (ops : List Operation) (hops : ∀ op ∈ ops, Conforms op.given)
    (hid : ∀ s ∈ (ofPage page options source).trail ops, s.page.Identified) :
    ∀ s ∈ (ofPage page options source).trail ops, Conforms s.page := by
  have hopened : Conforms (ofPage page options source).page := hpage.assignIds false source
  have hkeeps : (ofPage page options source).draft.Keeps Conforms options.undoLevels .empty :=
    .fresh options.undoLevels (hid _ (mem_trail_self _ ops)) hopened
  exact steady_trail Conforms.steady hkeeps rfl ops
    (fun op hop s hs => brings_conforming hs (hops op hop)) hid

/-- A panel with a text, and an image beside it. -/
def panel : Forest :=
  [⟨{ Label.ofTag "div" with id := some "panel" },
      some [⟨{ Label.ofTag "text" with id := some "words", text := some "Hello" }, none⟩]⟩,
    ⟨{ Label.ofTag "image" with id := some "picture" }, none⟩]

/-- A form is put into the panel, the text is moved out of it; removals fail and are taken back;
    all is undone, and made again in part. -/
def errands : List Operation :=
  [.addTag (.mk (.ofTag "form") (some [.ofText "Name"])) (some "panel") .inside,
    .moveTag "words" "picture" .after, .removeTags ["panel", "words", "missing"], .undo, .undo,
    .redo]

/-- The panel conforms all along. -/
theorem conforms_panel : Conforms panel ∧ (∀ op ∈ errands, Conforms op.given) ∧
    (∀ s ∈ (ofPage panel .standard Numbering.fresh).trail errands, s.page.Identified) ∧
    ∀ s ∈ (ofPage panel .standard Numbering.fresh).trail errands, Conforms s.page := by
  have hpage : Conforms panel := by decide
  have hgiven : ∀ op ∈ errands, Conforms op.given := by decide
  have hid : ∀ s ∈ (ofPage panel .standard Numbering.fresh).trail errands,
      s.page.Identified := by decide +kernel
  exact ⟨hpage, hgiven, hid, conforms_trail hpage .standard Numbering.fresh errands hgiven hid⟩

end Session

end Pagewright
