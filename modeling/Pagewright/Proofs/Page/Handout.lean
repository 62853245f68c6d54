import Pagewright.Proofs.Page.Naming

/-!
# Which node is given which id

Ids are given in pre-order, so the place of a node decides which id of the source it is given: the
one after those that went to the nodes before it.

* `Label.Hands.getElem?_thread` -- the label at a place after a visit that hands ids out, told by how
  many labels before it were picked;
* `Forest.Given` -- the page after such a visit; `given_relabel` says that **every such visit leaves
  this page**, and the source after as many ids as there are labels picked;
* `ids_given_exactly` -- the giving of missing ids, of all ids, and of new ids for those that are
  taken are visits of this kind. Once every node has an id, nothing is missing.
-/

namespace Pagewright

/-! ## 1. The ids of a source, one by one -/

namespace IdSource

variable {σ : Type} [IdSource σ]

/-- The id that a source hands out after so many others. -/
def nth (k : Nat) (s : σ) : String := (next (take k s).2).1

theorem take_eq_map_nth (n : Nat) (s : σ) :
    (take n s).1 = (List.range n).map fun k => nth k s := by
  induction n generalizing s with
  | zero => rfl
  | succ n ih =>
      rw [take, ih, List.range_succ_eq_map, List.map_cons, List.map_map]
      rfl

end IdSource

/-! ## 2. Places of labels -/

namespace Label

variable {σ τ : Type} [IdSource σ] {picks : Label → Bool} {source : τ → σ}
  {f : Label → τ → Label × τ}

/-- The label at a place is given the id after those that went to the labels before it. -/
theorem Hands.getElem?_thread (h : Hands picks source f) (ls : List Label) (t : τ) (i : Nat) :
    (thread f ls t).1[i]? = ls[i]?.map fun l =>
      if picks l then l.withId (IdSource.nth ((ls.take i).countP picks) (source t)) else l := by
  induction ls generalizing t i with
  | nil => rfl
  | cons l ls ih =>
      rw [thread]
      cases i with
      | zero =>
          rw [List.getElem?_cons_zero, List.getElem?_cons_zero, Option.map_some]
          cases hl : picks l with
          | true => rw [(h.picked l t hl).1, if_pos rfl]; rfl
          | false => rw [(h.other l t hl).1, if_neg Bool.false_ne_true]
      | succ i =>
          rw [List.getElem?_cons_succ, List.getElem?_cons_succ, ih, List.take_succ_cons]
          cases hl : picks l with
          | true =>
              rw [(h.picked l t hl).2, List.countP_cons_of_pos hl]
              rfl
          | false =>
              rw [(h.other l t hl).2,
                List.countP_cons_of_neg (ne_true_of_eq_false hl)]

end Label

/-! ## 3. On a page -/

namespace Forest

variable {σ τ : Type} [IdSource σ] {picks : Label → Bool} {ns ms : Forest} {s : σ}

/-- The second page is the first one, with ids of the source given to the nodes that are picked.

    * Nothing but ids is other than before.
    * Of the nodes in pre-order, each that is picked has the id that comes after those given to the
      nodes before it, and each other node is as it was. -/
structure Given (picks : Label → Bool) (s : σ) (ns ms : Forest) : Prop where
  same : Renamed (fun _ => False) ns ms
  label : ∀ i : Nat, (labels ms)[i]? = (labels ns)[i]?.map fun l =>
    if picks l then l.withId (IdSource.nth (((labels ns).take i).countP picks) s) else l

/-- **Every visit that hands ids out leaves this page**, and the source after as many ids as there
    are labels that are picked. -/
theorem given_relabel {source : τ → σ} {f : Label → τ → Label × τ}
    (h : Label.Hands picks source f) (ns : Forest) (t : τ) :
    Given picks (source t) ns (relabel f ns t).1 ∧
      source (relabel f ns t).2 = (IdSource.take ((labels ns).countP picks) (source t)).2 := by
  have hplace := h.getElem?_thread (labels ns) t
  rw [← labels_relabel] at hplace
  have hrenamed : Renamed (fun _ => False) ns (relabel f ns t).1 :=
    renamed_relabel (fun l t => .of_hands h l t fun _ _ hno => hno.elim) ns t
  exact ⟨⟨hrenamed, hplace⟩, source_relabel h ns t⟩

/-- Where all nodes without an id are picked, and no id is empty, none is without an id after. -/
theorem Given.ident_ne_none (h : Given picks s ns ms) (hs : ∀ k, IdSource.nth k s ≠ "")
    (hpicks : ∀ l : Label, l.ident = none → picks l = true) :
    ∀ l ∈ labels ms, l.ident ≠ none := by
  intro m hm
  obtain ⟨i, hi⟩ := List.mem_iff_getElem?.mp hm
  rw [h.label i] at hi
  obtain ⟨l, _, rfl⟩ := Option.map_eq_some_iff.mp hi
  cases hl : picks l with
  | true =>
      have hne := hs (((labels ns).take i).countP picks)
      rw [if_pos rfl, Label.ident, Label.withId, Option.filter_some, if_pos (by simpa using hne)]
      exact Option.some_ne_none _
  | false =>
      rw [if_neg Bool.false_ne_true]
      intro hnone
      rw [hpicks l hnone] at hl
      cases hl

/-- Where all nodes are picked, the ids are those of the source, in order. -/
theorem Given.ids_eq_take (h : Given (fun _ => true) s ns ms) :
    (labels ms).map Label.id = (IdSource.take (labels ns).length s).1.map some := by
  rw [IdSource.take_eq_map_nth, List.map_map]
  refine List.ext_getElem? fun i => ?_
  rw [List.getElem?_map, List.getElem?_map, h.label i, Option.map_map]
  by_cases hi : i < (labels ns).length
  · have hbefore : ((labels ns).take i).countP (fun _ => true) = i := by
      rw [List.countP_true, List.length_take, Nat.min_eq_left (Nat.le_of_lt hi)]
    rw [List.getElem?_eq_getElem hi, List.getElem?_range hi, Option.map_some, Option.map_some,
      hbefore]
    rfl
  · rw [List.getElem?_eq_none (Nat.le_of_not_lt hi),
      List.getElem?_eq_none (by rw [List.length_range]; exact Nat.le_of_not_lt hi)]
    rfl

/-- A page on which every node has an id has as many ids as nodes. -/
theorem length_ids (h : ∀ l ∈ labels ns, l.ident ≠ none) :
    (ids ns).length = (labels ns).length := by
  rw [ids, List.length_filterMap_eq_countP, List.countP_eq_length]
  exact fun l hl => Option.isSome_iff_ne_none.mpr (h l hl)

/-- **Who is given which id.** On every page, with every source that hands out no empty id,

    * where ids are given to the nodes that lack one, or to all nodes (`force`), each such node has
      in pre-order the next id of the source, one each, every other node keeps its id, and nothing
      but ids changes. Then there are as many ids as nodes, and to give the missing ones again
      changes nothing and takes no id from any source;
    * where all nodes are given one, their ids in pre-order are what the source hands out;
    * where new ids are given for those that are taken, the same holds of the nodes with an id that
      is taken, and their number is the result. -/
theorem ids_given_exactly (ns : Forest) (s : σ) (hs : ∀ k, IdSource.nth k s ≠ "") :
    (∀ force : Bool,
      Given (fun l => force || l.ident.isNone) s ns (ns.assignIds force s).1 ∧
      (ns.assignIds force s).2 =
        (IdSource.take ((labels ns).countP fun l => force || l.ident.isNone) s).2 ∧
      (ids (ns.assignIds force s).1).length = (labels (ns.assignIds force s).1).length ∧
      ∀ t : σ, (ns.assignIds force s).1.assignIds false t = ((ns.assignIds force s).1, t)) ∧
    (labels (ns.assignIds true s).1).map Label.id =
      (IdSource.take (labels ns).length s).1.map some ∧
    ∀ taken : String → Bool,
      Given (fun l => l.ident.any taken) s ns (ns.replaceIds taken s).1 ∧
      (ns.replaceIds taken s).2 =
        ((IdSource.take ((labels ns).countP fun l => l.ident.any taken) s).2,
          (labels ns).countP fun l => l.ident.any taken) := by
  refine ⟨fun force => ?_, ?_, fun taken => ?_⟩
  · obtain ⟨hgiven, hsource⟩ := given_relabel (Label.hands_assignId force) ns s
    have hnamed := hgiven.ident_ne_none hs fun l hl => by
      rw [hl, Option.isNone_none, Bool.or_true]
    exact ⟨hgiven, hsource, length_ids hnamed, assignIds_eq_self hnamed⟩
  · exact (given_relabel (Label.hands_assignId true) ns s).1.ids_eq_take
  · obtain ⟨hgiven, hsource⟩ := given_relabel (Label.hands_replaceId taken) ns (s, 0)
    have hstate := congrArg Prod.snd (labels_relabel (Label.replaceId taken) ns (s, 0))
    have hcount := Label.count_replaceId taken (labels ns) (s, 0)
    rw [← hstate, Nat.zero_add] at hcount
    exact ⟨hgiven, Prod.ext hsource hcount⟩

/-- A tag with an id, below it one without an id and one with the empty id, and another without. -/
def mixed : Forest :=
  [⟨{ Label.ofTag "div" with id := some "kept" },
    some [⟨Label.ofTag "p", none⟩, ⟨{ Label.ofTag "em" with id := some "" }, some []⟩]⟩,
    ⟨Label.ofTag "p", none⟩]

/-- On this page three ids are missing: the tag with the empty id is given the second. When all have
    one, it is given the third; and of new ids for those that are taken, it is given none. -/
theorem ids_given_exactly_mixed :
    (∀ k, IdSource.nth k Numbering.fresh ≠ "") ∧
      (labels (mixed.assignIds false Numbering.fresh).1)[2]? =
        some { Label.ofTag "em" with id := some "tag_10000001" } ∧
      (mixed.assignIds false Numbering.fresh).2 = ⟨3⟩ ∧
      (ids (mixed.assignIds false Numbering.fresh).1).length = 4 ∧
      (labels (mixed.assignIds true Numbering.fresh).1).map Label.id =
        [some "tag_10000000", some "tag_10000001", some "tag_10000002", some "tag_10000003"] ∧
      (labels (mixed.replaceIds (· = "kept") Numbering.fresh).1)[2]? =
        some { Label.ofTag "em" with id := some "" } ∧
      (mixed.replaceIds (· = "kept") Numbering.fresh).2 = (⟨1⟩, 1) := by
  have hs : ∀ k, IdSource.nth k Numbering.fresh ≠ "" :=
    fun k => LawfulIdSource.next_ne_empty (IdSource.take k Numbering.fresh).2
  obtain ⟨hassign, hall, hreplace⟩ := ids_given_exactly mixed Numbering.fresh hs
  obtain ⟨hgiven, hsource, hlength, _⟩ := hassign false
  obtain ⟨hnew, hcount⟩ := hreplace fun id => id = "kept"
  exact ⟨hs, (hgiven.label 2).trans rfl, hsource.trans rfl, hlength.trans rfl, hall.trans rfl,
    (hnew.label 2).trans rfl, hcount.trans rfl⟩

end Forest

end Pagewright
