import Pagewright.Proofs.Editor.Checking
import Pagewright.Proofs.Editor.Operation
import Pagewright.Proofs.Editor.Reversal

/-!
# A moved tag lands where it was dropped

A drop names a spot relative to a tag. The session turns it into a parent and a number on the page
as it is, but the tag is put in once it has left its old place, which may have moved the numbers of
its later neighbours. This file says that the tag ends up at the spot all the same.

* `Forest.Stands` -- a tag stands at a spot relative to the tag with some id, read off the page;
* `thinned_of_detach` -- what is left of the children of each parent once a tag is gone;
  `numberAfter` is the number of a place then, and `exists_getElem?_of_detach` finds the tag that
  was there at this number;
* `stands_at`, `stands_last` -- a tag that is put in at a number stands at the spot; so it does where
  it has left its old place before (`stands_beside`, `stands_inside`);
* `Session.stands_of_attach` -- at the parent and the number that a spot means, a tag stands at the
  spot;
* `Session.moveTag_lands` -- **a move ends at the spot that was asked for**, and is refused as a
  cycle where the spot lies within the tag that moves (`moveTag_eq_cycle`).
-/

namespace Pagewright

/-! ## 1. Places of tags -/

namespace Forest

variable {ns ms rest : Forest} {id dest : String} {t : Node} {source found : Match}

/-- A tag stands on the page at a spot relative to the tag with this id. -/
inductive Stands (ns : Forest) (t : Node) (id : String) : Spot → Prop where
  | before {q : List Nat} {earlier later : List Node} {d : Node}
      (there : ns.listAt q = some (earlier ++ t :: d :: later)) (ident : d.ident = some id) :
      Stands ns t id .before
  | after {q : List Nat} {earlier later : List Node} {d : Node}
      (there : ns.listAt q = some (earlier ++ d :: t :: later)) (ident : d.ident = some id) :
      Stands ns t id .after
  | inside {q : List Nat} {earlier : List Node} {d : Node} (there : ns.nodeAt q = some d)
      (ident : d.ident = some id) (last : d.children = earlier ++ [t]) :
      Stands ns t id .inside

/-- Two parents with one list are one. -/
theorem eq_of_listPath_eq {a b : Option String} {q : List Nat} (ha : ns.listPath a = some q)
    (hb : ns.listPath b = some q) : a = b := by
  -- the top level has the empty path, and the search never gives this one
  have top : ∀ {id : String}, ns.listPath (some id) = some q → ns.listPath none ≠ some q := by
    intro id hid htop
    obtain ⟨n, hn, _⟩ := nodeAt_of_pathOf hid
    cases htop
    exact ne_nil_of_nodeAt hn rfl
  cases a with
  | none =>
      cases b with
      | none => rfl
      | some id => exact absurd ha (top hb)
  | some id =>
      cases b with
      | none => exact absurd hb (top ha)
      | some id' =>
          obtain ⟨n, hn, hid⟩ := nodeAt_of_pathOf ha
          obtain ⟨n', hn', hid'⟩ := nodeAt_of_pathOf hb
          obtain rfl := Option.some.inj (hn.symm.trans hn')
          exact hid.symm.trans hid'

/-- Where every node has an id, the list in which a tag is found is that of its parent's id. -/
theorem place_of_find (hns : ns.Identified) (hf : ns.find id = some found) :
    ∃ q l, ns.pathOf id = some (q ++ [found.position]) ∧
      ns.listPath (Session.parentOf found) = some q ∧ ns.listAt q = some l ∧
      l[found.position]? = some found.node := by
  obtain ⟨q, hp, hn, _, hparent⟩ := pathOf_of_find hf
  rw [nodeAt_concat] at hn
  obtain ⟨l, hl, hat⟩ := Option.bind_eq_some_iff.mp hn
  refine ⟨q, l, hp, ?_, hl, hat⟩
  cases q with
  | nil =>
      rw [Session.parentOf, hparent, nodeAt_nil]
      rfl
  | cons i q =>
      obtain ⟨above, habove, _⟩ := nodeAt_of_listAt hl
      obtain ⟨pid, hident⟩ := hns.exists_ident habove
      rw [Session.parentOf, hparent, habove, Option.bind_some, hident]
      exact pathOf_of_nodeAt hns.distinct habove hident

/-- **Once a tag is gone**, the children of every parent are those that it had, without the tag
    where it was one of them. -/
theorem thinned_of_detach (hns : (ids ns).Nodup) (hd : ns.detach id = .ok (t, rest))
    {parent : Option String} {r : List Nat} {l' : List Node} (hr : rest.listPath parent = some r)
    (hl' : rest.listAt r = some l') :
    ∃ p q l, ns.pathOf id = some p ∧ ns.listPath parent = some q ∧ ns.listAt q = some l ∧
      Thinned p q l l' := by
  obtain ⟨p, hp, ht⟩ := exists_of_detach hd
  cases parent with
  | none =>
      cases hr
      obtain rfl := Option.some.inj ((listAt_nil rest).symm.trans hl')
      exact ⟨p, [], ns, hp, rfl, listAt_nil ns, thinned_of_takeAt ht⟩
  | some pid =>
      obtain ⟨m, hm, hident⟩ := nodeAt_of_pathOf hr
      obtain rfl := Option.some.inj ((listAt_of_nodeAt hm).symm.trans hl')
      obtain ⟨q, n, hn, hlabel, hthinned, _⟩ := exists_nodeAt_of_takeAt ht hm
      have hident' : n.ident = some pid := by
        rw [Node.ident, ← hlabel]
        exact hident
      exact ⟨p, q, n.children, hp, pathOf_of_nodeAt hns hn hident', listAt_of_nodeAt hn, hthinned⟩

/-! ## 2. Numbers of places -/

/-- The number of a place below a parent once a tag is gone: one less, where the tag was below this
    parent and before the place. -/
def numberAfter (source : Match) (parent : Option String) (k : Nat) : Nat :=
  if parent = Session.parentOf source ∧ source.position < k then k - 1 else k

theorem numberAfter_of_eq {parent : Option String} (h : parent = Session.parentOf source)
    (k : Nat) : numberAfter source parent k = if source.position < k then k - 1 else k := by
  rw [numberAfter]
  exact if_congr (and_iff_right h) rfl rfl

theorem numberAfter_of_ne {parent : Option String} (h : parent ≠ Session.parentOf source)
    (k : Nat) : numberAfter source parent k = k :=
  if_neg fun hboth => h hboth.1

/-- The numbers of neighbouring places stay neighbours, unless the tag stood between them. -/
theorem numberAfter_succ {parent : Option String} {k : Nat}
    (h : parent = Session.parentOf source → source.position ≠ k) :
    numberAfter source parent (k + 1) = numberAfter source parent k + 1 := by
  by_cases hsame : parent = Session.parentOf source
  · have hne := h hsame
    rw [numberAfter_of_eq hsame, numberAfter_of_eq hsame]
    split <;> split <;> omega
  · rw [numberAfter_of_ne hsame, numberAfter_of_ne hsame]

/-- Two tags with one parent are at two numbers. -/
theorem position_ne (hns : ns.Identified) (hsource : ns.find id = some source)
    (hfound : ns.find dest = some found) (hne : dest ≠ id)
    (hsame : Session.parentOf found = Session.parentOf source) :
    source.position ≠ found.position := by
  intro e
  obtain ⟨q, _, hp, hq, _, _⟩ := place_of_find hns hsource
  obtain ⟨q', _, hp', hq', _, _⟩ := place_of_find hns hfound
  rw [hsame] at hq'
  obtain rfl := Option.some.inj (hq.symm.trans hq')
  rw [← e] at hp'
  -- two ids with one path are one
  exact hne (Option.some.inj (eq_of_listPath_eq (a := some dest) (b := some id) hp' hp))

/-- What is left of a parent's children, as the number of a place counts them: without the tag where
    it is below the parent, and with the same ids where it is not. -/
theorem row_of_detach (hns : ns.Identified) (hsource : ns.find id = some source)
    (hd : ns.detach id = .ok (t, rest)) {parent : Option String} {r : List Nat} {l' : List Node}
    (hr : rest.listPath parent = some r) (hl' : rest.listAt r = some l') :
    ∃ q l, ns.listPath parent = some q ∧ ns.listAt q = some l ∧
      ((parent = Session.parentOf source ∧ l[source.position]? = some source.node ∧
          l' = l.eraseIdx source.position) ∨
        (parent ≠ Session.parentOf source ∧ l'.map Node.ident = l.map Node.ident)) := by
  obtain ⟨p, q, l, hp, hq, hl, hthinned⟩ := thinned_of_detach hns.distinct hd hr hl'
  obtain ⟨u, above, hp', hu, habove, hat⟩ := place_of_find hns hsource
  obtain rfl := Option.some.inj (hp.symm.trans hp')
  refine ⟨q, l, hq, hl, ?_⟩
  by_cases hsame : parent = Session.parentOf source
  · rw [hsame] at hq
    obtain rfl := Option.some.inj (hq.symm.trans hu)
    obtain rfl := Option.some.inj (hl.symm.trans habove)
    exact Or.inl ⟨hsame, hat, hthinned.own _ rfl⟩
  · refine Or.inr ⟨hsame, hthinned.other fun k hk => ?_⟩
    obtain ⟨rfl, _⟩ := List.append_inj' hk rfl
    exact hsame (eq_of_listPath_eq hq hu)

/-- **A tag that stays is found at the number of its place**, as this is once the other tag is
    gone. -/
theorem exists_getElem?_of_detach (hns : ns.Identified) (hsource : ns.find id = some source)
    (hfound : ns.find dest = some found) (hne : dest ≠ id) (hd : ns.detach id = .ok (t, rest))
    {r : List Nat} {l' : List Node} (hr : rest.listPath (Session.parentOf found) = some r)
    (hl' : rest.listAt r = some l') :
    ∃ d, l'[numberAfter source (Session.parentOf found) found.position]? = some d ∧
      d.ident = some dest := by
  obtain ⟨q, l, hq, hl, hrow⟩ := row_of_detach hns hsource hd hr hl'
  obtain ⟨u, above, _, hu, habove, hat⟩ := place_of_find hns hfound
  obtain rfl := Option.some.inj (hq.symm.trans hu)
  obtain rfl := Option.some.inj (hl.symm.trans habove)
  obtain ⟨_, _, _, hident, _⟩ := pathOf_of_find hfound
  rcases hrow with ⟨hsame, _, rfl⟩ | ⟨hother, hidents⟩
  · have hapart := position_ne hns hsource hfound hne hsame
    refine ⟨found.node, ?_, hident⟩
    rw [numberAfter_of_eq hsame]
    split
    · rw [List.getElem?_eraseIdx_of_ge (by omega), Nat.sub_add_cancel (by omega), hat]
    · rw [List.getElem?_eraseIdx_of_lt (by omega), hat]
  · have hmap := congrArg (·[found.position]?) hidents
    simp only [List.getElem?_map, hat, Option.map_some, hident] at hmap
    rw [numberAfter_of_ne hother]
    exact Option.map_eq_some_iff.mp hmap

/-! ## 3. Spots -/

/-- A list that parts at the number of a node parts before it. -/
theorem parts_before {earlier later : List Node} {j : Nat} {d : Node}
    (hj : (earlier ++ later)[j]? = some d)
    (hlength : earlier.length = min j (earlier ++ later).length) :
    ∃ others, later = d :: others := by
  have hlt := (List.getElem?_eq_some_iff.mp hj).1
  rw [List.getElem?_append_right (by omega), show j - earlier.length = 0 by omega] at hj
  cases later with
  | nil => cases hj
  | cons n others =>
      obtain rfl := Option.some.inj hj
      exact ⟨others, rfl⟩

/-- A list that parts at the number after a node parts after it. -/
theorem parts_after {earlier later : List Node} {j : Nat} {d : Node}
    (hj : (earlier ++ later)[j]? = some d)
    (hlength : earlier.length = min (j + 1) (earlier ++ later).length) :
    ∃ others, earlier = others ++ [d] := by
  have hlt := (List.getElem?_eq_some_iff.mp hj).1
  rw [List.getElem?_append_left (by omega)] at hj
  refine List.getLast?_eq_some_iff.mp ?_
  rw [List.getLast?_eq_getElem?, show earlier.length - 1 = j by omega]
  exact hj

/-- **Put in at the number of a tag, or after it**, another stands before it, or after it. -/
theorem stands_at {parent : Option String} {r : List Nat} {l : List Node} {j : Nat} {d : Node}
    (hr : ns.listPath parent = some r) (hl : ns.listAt r = some l) (hat : l[j]? = some d)
    (hident : d.ident = some dest) :
    (ns.attach parent j t = .ok ms → ms.Stands t dest .before) ∧
      (ns.attach parent (j + 1) t = .ok ms → ms.Stands t dest .after) := by
  constructor
  · intro ha
    obtain ⟨r', earlier, later, hr', hl', hlength, hms⟩ := putsAt_of_attach ha
    obtain rfl := Option.some.inj (hr.symm.trans hr')
    obtain rfl := Option.some.inj (hl.symm.trans hl')
    obtain ⟨others, rfl⟩ := parts_before hat hlength
    exact .before hms hident
  · intro ha
    obtain ⟨r', earlier, later, hr', hl', hlength, hms⟩ := putsAt_of_attach ha
    obtain rfl := Option.some.inj (hr.symm.trans hr')
    obtain rfl := Option.some.inj (hl.symm.trans hl')
    obtain ⟨others, rfl⟩ := parts_after hat hlength
    rw [List.append_assoc] at hms
    exact .after hms hident

/-- The same where a tag has been taken out before. -/
theorem stands_beside (hns : ns.Identified) (hsource : ns.find id = some source)
    (hfound : ns.find dest = some found) (hne : dest ≠ id) (hd : ns.detach id = .ok (t, rest))
    {k : Nat} (ha : rest.attach (Session.parentOf found) k t = .ok ms) :
    (k = numberAfter source (Session.parentOf found) found.position → ms.Stands t dest .before) ∧
      (k = numberAfter source (Session.parentOf found) (found.position + 1) →
        ms.Stands t dest .after) := by
  obtain ⟨r, hr, _⟩ := exists_of_attach ha
  obtain ⟨l, hl⟩ := listAt_of_listPath hr
  obtain ⟨d, hat, hident⟩ := exists_getElem?_of_detach hns hsource hfound hne hd hr hl
  obtain ⟨hbefore, hafter⟩ := stands_at hr hl hat hident
  rw [numberAfter_succ (position_ne hns hsource hfound hne)]
  exact ⟨fun hk => hbefore (hk ▸ ha), fun hk => hafter (hk ▸ ha)⟩

/-- The parent that takes a node in keeps its id. -/
theorem nodeAt_of_attach {pid : String} {k : Nat} (ha : ns.attach (some pid) k t = .ok ms) :
    ∃ q n, ns.pathOf pid = some q ∧ ms.nodeAt q = some n ∧ n.ident = some pid := by
  obtain ⟨q, hq, hm⟩ := exists_of_attach ha
  obtain ⟨n, hn, hident⟩ := nodeAt_of_pathOf hq
  cases q with
  | nil => exact absurd rfl (ne_nil_of_nodeAt hn)
  | cons i q =>
      rw [modifyChildrenAt] at hm
      obtain ⟨ms', hms', hat⟩ :=
        modifyAt_of_nodeAt (fun n => ⟨n.label, some (insertAt k t n.children)⟩) hn
      obtain rfl := Option.some.inj (hm.symm.trans hms')
      exact ⟨i :: q, _, hq, hat, hident⟩

/-- **Put in after the children of a tag**, another is the last of them. -/
theorem stands_last {q : List Nat} {l : List Node} (hq : ns.pathOf dest = some q)
    (hl : ns.listAt q = some l) (ha : ns.attach (some dest) l.length t = .ok ms) :
    ms.Stands t dest .inside := by
  obtain ⟨r, earlier, later, hr, hl', hlength, hms⟩ := putsAt_of_attach ha
  obtain ⟨r', n, hr', hn, hident⟩ := nodeAt_of_attach ha
  obtain rfl := Option.some.inj (hr.symm.trans hr')
  obtain rfl := Option.some.inj (hr.symm.trans hq)
  obtain rfl := Option.some.inj (hl.symm.trans hl')
  rw [Nat.min_self, List.length_append] at hlength
  obtain rfl := List.eq_nil_of_length_eq_zero (l := later) (by omega)
  exact .inside hn hident (Option.some.inj ((listAt_of_nodeAt hn).symm.trans hms))

/-- The same where a tag has been taken out before. -/
theorem stands_inside (hns : ns.Identified) (hsource : ns.find id = some source)
    (hfound : ns.find dest = some found) (hd : ns.detach id = .ok (t, rest))
    (ha : rest.attach (some dest) (numberAfter source (some dest) found.node.children.length) t =
      .ok ms) : ms.Stands t dest .inside := by
  obtain ⟨r, hr, _⟩ := exists_of_attach ha
  obtain ⟨l', hl'⟩ := listAt_of_listPath hr
  obtain ⟨q, l, hq, hl, hrow⟩ := row_of_detach hns hsource hd hr hl'
  obtain ⟨u, hp, hn, _, _⟩ := pathOf_of_find hfound
  obtain rfl := Option.some.inj (hq.symm.trans hp)
  obtain rfl := Option.some.inj (hl.symm.trans (listAt_of_nodeAt hn))
  -- the number is that of the end, whether the tag was one of the children or not
  have hend : l'.length = numberAfter source (some dest) found.node.children.length := by
    rcases hrow with ⟨hsame, hat, herase⟩ | ⟨hother, hidents⟩
    · have hlt := (List.getElem?_eq_some_iff.mp hat).1
      rw [herase, List.length_eraseIdx_of_lt hlt, numberAfter_of_eq hsame, if_pos hlt]
    · have hlengths := congrArg List.length hidents
      rw [List.length_map, List.length_map] at hlengths
      rw [hlengths, numberAfter_of_ne hother]
  rw [← hend] at ha
  exact stands_last hr hl' ha

end Forest

/-! ## 4. Moves -/

namespace Session

open Forest

variable {σ : Type} {s s' : Session σ} {id dest : String} {spot : Spot}
  {source : Match} {parent : Option String} {k : Nat} {t : Node} {rest page' : Forest}

/-- What a move that succeeds comes to. -/
theorem exists_of_moveTag (h : s.moveTag id dest spot = (.ok (), s')) :
    ∃ source parent k, s.page.find id = some source ∧
      s.placement (some dest) spot = .ok (parent, k) ∧
      (Edit.move id parent (numberAfter source parent k)).apply s.page = .ok s'.page := by
  rw [moveTag] at h
  cases hsource : s.page.find id with
  | none => simp only [hsource] at h; cases h
  | some source =>
      cases hplace : s.placement (some dest) spot with
      | error e => simp only [hsource, hplace] at h; cases h
      | ok place =>
          obtain ⟨parent, k⟩ := place
          simp only [hsource, hplace] at h
          exact ⟨source, parent, k, rfl, rfl, apply_of_make h⟩

/-- The parent and the number that a spot relative to a tag means. -/
theorem exists_of_placement (h : s.placement (some dest) spot = .ok (parent, k)) :
    ∃ found, s.page.find dest = some found ∧
      ((spot = .before ∧ parent = parentOf found ∧ k = found.position) ∨
        (spot = .after ∧ parent = parentOf found ∧ k = found.position + 1) ∨
        (spot = .inside ∧ parent = some dest ∧ k = found.node.children.length)) := by
  rw [placement] at h
  cases hfound : s.page.find dest with
  | none => simp only [hfound] at h; cases h
  | some found =>
      refine ⟨found, rfl, ?_⟩
      cases spot with
      | before =>
          simp only [hfound] at h
          cases h
          exact Or.inl ⟨rfl, rfl, rfl⟩
      | after =>
          simp only [hfound] at h
          cases h
          exact Or.inr (Or.inl ⟨rfl, rfl, rfl⟩)
      | inside =>
          simp only [hfound] at h
          cases h
          exact Or.inr (Or.inr ⟨rfl, rfl, rfl⟩)

/-- A tag that is put in at the place of a spot stands there. -/
theorem stands_of_attach (hs : s.page.Identified)
    (hplace : s.placement (some dest) spot = .ok (parent, k))
    (ha : s.page.attach parent k t = .ok page') : page'.Stands t dest spot := by
  obtain ⟨found, hfound, hspot⟩ := exists_of_placement hplace
  obtain ⟨q, l, _, hq, hl, hat⟩ := place_of_find hs hfound
  obtain ⟨_, hp, hn, hident, _⟩ := pathOf_of_find hfound
  rcases hspot with ⟨rfl, rfl, rfl⟩ | ⟨rfl, rfl, rfl⟩ | ⟨rfl, rfl, rfl⟩
  · exact (stands_at hq hl hat hident).1 ha
  · exact (stands_at hq hl hat hident).2 ha
  · exact stands_last hp (listAt_of_nodeAt hn) ha

/-- The same where the tag has left its old place before. -/
theorem stands_of_placement (hs : s.page.Identified) (hsource : s.page.find id = some source)
    (hne : dest ≠ id) (hplace : s.placement (some dest) spot = .ok (parent, k))
    (hd : s.page.detach id = .ok (t, rest))
    (ha : rest.attach parent (numberAfter source parent k) t = .ok page') :
    page'.Stands t dest spot := by
  obtain ⟨found, hfound, hspot⟩ := exists_of_placement hplace
  rcases hspot with ⟨rfl, rfl, rfl⟩ | ⟨rfl, rfl, rfl⟩ | ⟨rfl, rfl, rfl⟩
  · exact (stands_beside hs hsource hfound hne hd ha).1 rfl
  · exact (stands_beside hs hsource hfound hne hd ha).2 rfl
  · exact stands_inside hs hsource hfound hd ha

theorem parentOf_of_parentId (h : Edit.parentId source = .ok parent) :
    parentOf source = parent := by
  rw [Edit.parentId] at h
  rw [parentOf]
  cases hp : source.parent with
  | none =>
      rw [hp] at h
      exact Except.ok.inj h
  | some above =>
      simp only [hp] at h
      cases hid : above.ident with
      | none => simp only [hid] at h; cases h
      | some pid =>
          simp only [hid] at h
          rw [Option.bind_some, hid]
          exact Except.ok.inj h

/-- A tag that was put in beside itself is where it was. -/
theorem eq_of_placement_self (hs : s.page.Identified) (hsource : s.page.find id = some source)
    (hacyclic : Edit.checkAcyclic source.node parent = .ok ())
    (hplace : s.placement (some id) spot = .ok (parent, k))
    (hd : s.page.detach id = .ok (t, rest))
    (ha : rest.attach parent (numberAfter source parent k) t = .ok page') : page' = s.page := by
  obtain ⟨_, old, hold, _, hback⟩ := attach_detach hs hsource hd
  rw [← parentOf_of_parentId hold] at hback
  obtain ⟨found, hfound, hspot⟩ := exists_of_placement hplace
  obtain rfl := Option.some.inj (hsource.symm.trans hfound)
  rcases hspot with ⟨rfl, rfl, rfl⟩ | ⟨rfl, rfl, rfl⟩ | ⟨rfl, rfl, rfl⟩
  · rw [numberAfter_of_eq rfl, if_neg (Nat.lt_irrefl _), hback] at ha
    exact (Except.ok.inj ha).symm
  · rw [numberAfter_of_eq rfl, if_pos (Nat.lt_succ_self _), Nat.add_sub_cancel, hback] at ha
    exact (Except.ok.inj ha).symm
  · obtain ⟨_, _, _, hident, _⟩ := pathOf_of_find hsource
    have hown : id ∈ Forest.ids [source.node] :=
      mem_ids_of_ident (List.mem_singleton_self source.node) hident
    rw [Edit.checkAcyclic_of_mem_ids hown] at hacyclic
    cases hacyclic

end Session

/-- The path of the parent that a spot relative to the node at a path means; the empty one for the
    top level. -/
def Spot.parentPath (q : List Nat) : Spot → List Nat
  | .inside => q
  | .before | .after => q.dropLast

namespace Session

open Forest

variable {σ : Type} {s : Session σ} {id dest : String} {spot : Spot}

/-- A spot below a node means this node for a parent. -/
theorem placement_of_nodeAt (hs : s.page.Identified) {q : List Nat} {d : Node}
    (hd : s.page.nodeAt q = some d) (hdest : d.ident = some dest)
    (hbelow : spot.parentPath q ≠ []) :
    ∃ m pid k, s.page.nodeAt (spot.parentPath q) = some m ∧ m.ident = some pid ∧
      s.placement (some dest) spot = .ok (some pid, k) := by
  obtain ⟨k, hfind⟩ := find_of_nodeAt hs.distinct hd hdest
  -- a spot beside a node is below the node above it, which has an id
  have beside : q.dropLast ≠ [] → ∃ m pid, s.page.nodeAt q.dropLast = some m ∧
      m.ident = some pid ∧ parentOf ⟨d, s.page.nodeAt q.dropLast, k⟩ = some pid := by
    intro hne
    obtain ⟨u, i, l, rfl, hl, _⟩ := exists_concat_of_nodeAt hd
    rw [List.dropLast_concat] at hne ⊢
    obtain ⟨j, u, rfl⟩ := List.exists_cons_of_ne_nil hne
    obtain ⟨m, hm, _⟩ := nodeAt_of_listAt hl
    obtain ⟨pid, hident⟩ := hs.exists_ident hm
    refine ⟨m, pid, hm, hident, ?_⟩
    rw [parentOf, hm, Option.bind_some, hident]
  cases spot with
  | inside =>
      refine ⟨d, dest, d.children.length, hd, hdest, ?_⟩
      simp only [placement, hfind]
  | before =>
      obtain ⟨m, pid, hm, hpid, hparent⟩ := beside hbelow
      refine ⟨m, pid, k, hm, hpid, ?_⟩
      simp only [placement, hfind, hparent]
  | after =>
      obtain ⟨m, pid, hm, hpid, hparent⟩ := beside hbelow
      refine ⟨m, pid, k + 1, hm, hpid, ?_⟩
      simp only [placement, hfind, hparent]

/-- **A spot within the tag that moves is refused**, and nothing changes. -/
theorem moveTag_eq_cycle (hs : s.page.Identified) {p q : List Nat} {n d : Node}
    (hn : s.page.nodeAt p = some n) (hid : n.ident = some id) (hd : s.page.nodeAt q = some d)
    (hdest : d.ident = some dest) (hbelow : p <+: spot.parentPath q) :
    s.moveTag id dest spot = (.error (.edit .cycle), s) := by
  have hne : spot.parentPath q ≠ [] := by
    intro e
    rw [e] at hbelow
    exact ne_nil_of_nodeAt hn (List.prefix_nil.mp hbelow)
  obtain ⟨m, pid, k, hm, hpid, hplace⟩ := placement_of_nodeAt hs hd hdest hne
  obtain ⟨j, hfind⟩ := find_of_nodeAt hs.distinct hn hid
  obtain ⟨r, hr⟩ := hbelow
  rw [← hr, nodeAt_append hn] at hm
  have hcycle := Edit.checkAcyclic_of_mem_ids (mem_ids_of_nodeAt hm hpid)
  simp only [moveTag, hfind, hplace]
  refine make_of_check_error ?_
  simp only [Edit.check, Edit.target, hfind, hcycle]

/-- **A moved tag lands where it was dropped.** On a page whose nodes all have ids, all different,

    * where the move succeeds, the tag stands at the spot that was asked for, or, where this is
      beside the tag itself, the page is as it was. It is the same tag with all that lies below it,
      and taken out after the move it leaves what it leaves before, but for a list of children that
      was there and empty and may be gone;
    * where the new parent is the tag or one below it, the move fails as a cycle, and nothing
      changes. -/
theorem moveTag_lands (s : Session σ) (hs : s.page.Identified) (id dest : String) (spot : Spot) :
    (∀ s', s.moveTag id dest spot = (.ok (), s') →
      (dest = id → s'.page = s.page) ∧
      ∃ t rest rest', (s.page.find id).map Match.node = some t ∧
        (dest ≠ id → s'.page.Stands t dest spot) ∧
        s.page.detach id = .ok (t, rest) ∧ s'.page.detach id = .ok (t, rest') ∧
        Forest.Sheds rest rest') ∧
    ∀ p q n d, s.page.nodeAt p = some n → n.ident = some id →
      s.page.nodeAt q = some d → d.ident = some dest → p <+: spot.parentPath q →
      s.moveTag id dest spot = (.error (.edit .cycle), s) := by
  refine ⟨fun s' h => ?_, fun p q n d hn hid hd hdest hbelow =>
    moveTag_eq_cycle hs hn hid hd hdest hbelow⟩
  obtain ⟨source, parent, k, hsource, hplace, happly⟩ := exists_of_moveTag h
  obtain ⟨hcheck, hperform⟩ := (Edit.apply_eq_ok_iff _ _ _).mp happly
  obtain ⟨found, hfound, hacyclic, _⟩ := Edit.check_move hcheck
  obtain rfl := Option.some.inj (hsource.symm.trans hfound)
  obtain ⟨t, rest, hd, ha⟩ := Edit.perform_move hperform
  have hnode := node_of_detach hsource hd
  obtain ⟨_, _, _, hident, _⟩ := pathOf_of_find hsource
  rw [hnode] at hident
  have hfresh : (Edit.move id parent (numberAfter source parent k)).Fresh := trivial
  have hs' := Edit.identified_perform hs hfresh hcheck hperform
  obtain ⟨rest', hd', hsheds, _⟩ := detach_attach hident hs'.distinct ha
  refine ⟨?_, t, rest, rest', ?_, fun hne => ?_, hd, hd', hsheds⟩
  · rintro rfl
    exact eq_of_placement_self hs hsource hacyclic hplace hd ha
  · rw [hsource, Option.map_some, hnode]
  · exact stands_of_placement hs hsource hne hplace hd ha

/-- A box with three tags in it. -/
def trio : Forest :=
  [⟨{ Label.ofTag "div" with id := some "box" },
    some [⟨{ Label.ofTag "p" with id := some "one" }, none⟩,
      ⟨{ Label.ofTag "p" with id := some "two" }, none⟩,
      ⟨{ Label.ofTag "p" with id := some "three" }, none⟩]⟩]

/-- The first tag goes after the second, with its number corrected, or stays where it is; the box
    does not go into itself. -/
theorem moveTag_lands_trio :
    let s := ofPage trio .standard Numbering.fresh
    s.page.Identified ∧
      (∃ s' t, s.moveTag "one" "two" .after = (.ok (), s') ∧
        (s.page.find "one").map Match.node = some t ∧ s'.page.Stands t "two" .after) ∧
      (∃ s', s.moveTag "one" "one" .after = (.ok (), s') ∧ s'.page = s.page) ∧
      s.moveTag "box" "two" .after = (.error (.edit .cycle), s) := by
  intro s
  have hs : s.page.Identified := by decide
  have hmove : s.moveTag "one" "two" .after = (.ok (), (s.moveTag "one" "two" .after).2) := rfl
  have hself : s.moveTag "one" "one" .after = (.ok (), (s.moveTag "one" "one" .after).2) := rfl
  obtain ⟨_, t, _, _, ht, hstands, _⟩ := (moveTag_lands s hs "one" "two" .after).1 _ hmove
  exact ⟨hs, ⟨_, t, hmove, ht, hstands (by decide)⟩,
    ⟨_, hself, ((moveTag_lands s hs "one" "one" .after).1 _ hself).1 rfl⟩,
    (moveTag_lands s hs "box" "two" .after).2 [0] [0, 1] _ _ rfl rfl rfl rfl (by decide)⟩

end Session

end Pagewright
