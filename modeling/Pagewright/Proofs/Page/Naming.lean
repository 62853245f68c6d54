import Mathlib.Data.List.Nodup
import Pagewright.Proofs.Page.IdShape
import Pagewright.Proofs.Page.Walk

/-!
# Naming

Which ids a page has after ids were given, told by what the source handed out (`IdSource.take`):

* `Label.Hands` -- what all visits do that give ids: a label that is picked is given the next id of
  the source, any other is left as it is and costs no id. `ids_relabel` says which ids there are
  after such a visit;
* `ids_assignIds` -- giving ids to the nodes that lack one adds what was handed out, and
  `ids_assignIds_force`: giving ids to all nodes leaves that alone;
* `ids_replaceIds` -- giving new ids for those that are taken keeps the others and adds what was
  handed out;
* `assignIds_eq_self` -- where every node has an id, none is missing: nothing changes, and nothing is
  handed out;
* `Numbering.take_nodup` -- **the numbering does not repeat itself** before it has handed out every
  id, as long as its word does not start over;
* `Forest.Renamed` -- what giving ids leaves: everything but ids (`renamed_relabel`), and of these
  the ones that are to be kept.
-/

namespace Pagewright

/-! ## 1. What a source hands out -/

/-- The next ids of a source, as many as asked for, and the source after. -/
def IdSource.take {σ : Type} [IdSource σ] : Nat → σ → List String × σ
  | 0, s => ([], s)
  | n + 1, s =>
      let rest := IdSource.take n (IdSource.next s).2
      ((IdSource.next s).1 :: rest.1, rest.2)

/-- A source that never hands out the empty id, which no node can have. -/
class LawfulIdSource (σ : Type) [IdSource σ] : Prop where
  next_ne_empty : ∀ s : σ, (IdSource.next s).1 ≠ ""

theorem numberedId_ne_empty (n : Nat) : numberedId n ≠ "" := by
  intro h
  rw [numberedId, String.append_eq_empty_iff] at h
  exact absurd h.1 (by decide)

theorem numberedId_injective : Function.Injective numberedId := by
  intro m n h
  rw [numberedId, numberedId, String.append_right_inj] at h
  have h' : Nat.toDigits 10 m = Nat.toDigits 10 n := by
    rw [← Nat.toList_repr, ← Nat.toList_repr, h]
  rw [← Nat.ofDigitChars_ten_toDigits (n := m), h', Nat.ofDigitChars_ten_toDigits]

instance : LawfulIdSource Numbering := ⟨fun _ => numberedId_ne_empty _⟩

instance : LawfulIdSource Draw := ⟨fun _ => numberedId_ne_empty _⟩

namespace IdSource

variable {σ : Type} [IdSource σ]

/-- Asking twice is asking once for both. -/
theorem take_add (m n : Nat) (s : σ) :
    take (m + n) s = ((take m s).1 ++ (take n (take m s).2).1, (take n (take m s).2).2) := by
  induction m generalizing s with
  | zero => rw [Nat.zero_add, take, List.nil_append]
  | succ m ih => rw [Nat.succ_add, take, ih, take, List.cons_append]

theorem length_take (n : Nat) (s : σ) : (take n s).1.length = n := by
  induction n generalizing s with
  | zero => rfl
  | succ n ih => rw [take, List.length_cons, ih]

end IdSource

namespace Numbering

theorem take_eq (n : Nat) (s : Numbering) : take n s = IdSource.take n s := by
  induction n generalizing s with
  | zero => rfl
  | succ n ih =>
      rw [take, IdSource.take, ih]
      rfl

/-- The ids that a numbering hands out before its word starts over. -/
theorem take_eq_map {n : Nat} {s : Numbering} (h : s.count.toNat + n ≤ UInt32.size) :
    (IdSource.take n s).1 =
      (List.range n).map fun i => numberedId (leastIdNumber + (s.count.toNat + i) % idCount) := by
  induction n generalizing s with
  | zero => rfl
  | succ n ih =>
      have hnext : (IdSource.take n (IdSource.next s).2).1 = (List.range n).map fun i =>
          numberedId (leastIdNumber + (s.count.toNat + (i + 1)) % idCount) := by
        cases n with
        | zero => rfl
        | succ n =>
            have hcount : (IdSource.next s).2.count.toNat = s.count.toNat + 1 := by
              show (s.count + 1).toNat = _
              rw [UInt32.size] at h
              rw [UInt32.toNat_add, UInt32.toNat_one, Nat.mod_eq_of_lt (by omega)]
            rw [ih (by omega), hcount]
            refine List.map_congr_left fun i _ => ?_
            rw [Nat.add_assoc s.count.toNat 1 i, Nat.add_comm 1 i]
      rw [IdSource.take, List.range_succ_eq_map, List.map_cons, List.map_map, hnext]
      rfl

/-- **The numbering does not repeat itself**: not before it has handed out every id. -/
theorem take_nodup {n : Nat} {s : Numbering} (hn : n ≤ idCount)
    (h : s.count.toNat + n ≤ UInt32.size) : (IdSource.take n s).1.Nodup := by
  rw [take_eq_map h]
  refine List.Nodup.map_on ?_ List.nodup_range
  intro i hi j hj e
  rw [List.mem_range] at hi hj
  have e' := Nat.add_left_cancel (numberedId_injective e)
  -- two numbers less than a whole round apart with the same rest
  have hround : idCount = 90000000 := rfl
  rw [hround] at e' hn
  omega

end Numbering

/-! ## 2. Giving ids, label by label -/

namespace Label

/-- The ids among labels. -/
def idsOf (ls : List Label) : List String := ls.filterMap ident

theorem idsOf_cons (l : Label) (ls : List Label) :
    idsOf (l :: ls) = l.ident.toList ++ idsOf ls := by
  rw [idsOf]
  cases h : l.ident with
  | none => exact List.filterMap_cons_none h
  | some id => exact List.filterMap_cons_some h

theorem idsOf_filter_identified (ls : List Label) :
    idsOf (ls.filter fun l => !l.ident.isNone) = idsOf ls := by
  rw [idsOf, List.filterMap_filter]
  refine List.filterMap_congr fun l _ => ?_
  cases l.ident <;> rfl

theorem idsOf_filter_free (taken : String → Bool) (ls : List Label) :
    idsOf (ls.filter fun l => !l.ident.any taken) = (idsOf ls).filter (!taken ·) := by
  rw [idsOf, idsOf, List.filterMap_filter, List.filter_filterMap]
  refine List.filterMap_congr fun l _ => ?_
  cases l.ident <;> rfl

theorem countP_idsOf (taken : String → Bool) (ls : List Label) :
    (idsOf ls).countP taken = ls.countP fun l => l.ident.any taken := by
  rw [idsOf, List.countP_filterMap]
  refine List.countP_congr fun l _ => ?_
  cases l.ident <;> exact Iff.rfl

/-- How many labels have no id. -/
def lacking (ls : List Label) : Nat := ls.countP (·.ident.isNone)

variable {σ τ : Type} [IdSource σ] {picks : Label → Bool} {source : τ → σ}
  {f : Label → τ → Label × τ}

/-- A visit of labels hands ids out: a label that is picked is given the next id, any other stays and
    takes none. The source is read off the state of the visit. -/
structure Hands (picks : Label → Bool) (source : τ → σ) (f : Label → τ → Label × τ) : Prop where
  picked : ∀ l t, picks l = true →
    (f l t).1 = l.withId (IdSource.next (source t)).1 ∧
      source (f l t).2 = (IdSource.next (source t)).2
  other : ∀ l t, picks l = false → (f l t).1 = l ∧ source (f l t).2 = source t

theorem hands_assignId (force : Bool) :
    Hands (fun l => force || l.ident.isNone) (fun s => s) (assignId force : Label → σ → Label × σ) where
  picked l s hl := by
    rw [assignId, if_pos hl]
    exact ⟨rfl, rfl⟩
  other l s hl := by
    rw [assignId, if_neg (ne_true_of_eq_false hl)]
    exact ⟨rfl, rfl⟩

theorem hands_replaceId (taken : String → Bool) :
    Hands (fun l => l.ident.any taken) Prod.fst
      (replaceId taken : Label → σ × Nat → Label × (σ × Nat)) where
  picked l t hl := by
    rw [replaceId, if_pos hl]
    exact ⟨rfl, rfl⟩
  other l t hl := by
    rw [replaceId, if_neg (ne_true_of_eq_false hl)]
    exact ⟨rfl, rfl⟩

/-- The giving of new ids counts the labels whose id is taken. -/
theorem count_replaceId (taken : String → Bool) (ls : List Label) (t : σ × Nat) :
    (thread (replaceId taken) ls t).2.2 = t.2 + ls.countP fun l => l.ident.any taken := by
  induction ls generalizing t with
  | nil => rfl
  | cons l ls ih =>
      rw [thread]
      show (thread (replaceId taken) ls (replaceId taken l t).2).2.2 = _
      rw [ih, replaceId]
      cases hl : l.ident.any taken with
      | true =>
          rw [if_pos rfl, List.countP_cons_of_pos (p := fun l : Label => l.ident.any taken) hl]
          show t.2 + 1 + _ = _
          omega
      | false =>
          rw [if_neg Bool.false_ne_true,
            List.countP_cons_of_neg (p := fun l : Label => l.ident.any taken)
              (ne_true_of_eq_false hl)]

/-- Nothing of a label changes but its id. -/
theorem Hands.same (h : Hands picks source f) (l : Label) (t : τ) :
    ∃ id, (f l t).1 = { l with id := id } := by
  cases hl : picks l with
  | true => exact ⟨_, (h.picked l t hl).1⟩
  | false => exact ⟨l.id, (h.other l t hl).1⟩

/-- As many ids are handed out as there are labels that are picked. -/
theorem Hands.source_thread (h : Hands picks source f) (ls : List Label) (t : τ) :
    source (thread f ls t).2 = (IdSource.take (ls.countP picks) (source t)).2 := by
  induction ls generalizing t with
  | nil => rfl
  | cons l ls ih =>
      rw [thread]
      show source (thread f ls (f l t).2).2 = _
      rw [ih]
      cases hl : picks l with
      | true => rw [(h.picked l t hl).2, List.countP_cons_of_pos hl, IdSource.take]
      | false => rw [(h.other l t hl).2, List.countP_cons_of_neg (ne_true_of_eq_false hl)]

variable [LawfulIdSource σ]

theorem ident_withId_next (l : Label) (s : σ) :
    (l.withId (IdSource.next s).1).ident = some (IdSource.next s).1 := by
  have h := LawfulIdSource.next_ne_empty s
  rw [ident, withId, Option.filter_some, if_pos (by simpa using h)]

/-- A label that is given an id has one after, and one that has an id does not lose it. -/
theorem Hands.ident_ne_none (h : Hands picks source f) {l : Label} (t : τ)
    (hl : l.ident = none → picks l = true) : (f l t).1.ident ≠ none := by
  cases hpick : picks l with
  | true =>
      rw [(h.picked l t hpick).1, ident_withId_next]
      exact Option.some_ne_none _
  | false =>
      rw [(h.other l t hpick).1]
      intro hnone
      exact ne_true_of_eq_false hpick (hl hnone)

/-- **The ids after a visit that hands ids out** are those of the labels that are not picked, and what
    was handed out. -/
theorem Hands.idsOf_thread (h : Hands picks source f) (ls : List Label) (t : τ) :
    (idsOf (thread f ls t).1).Perm
      (idsOf (ls.filter (!picks ·)) ++ (IdSource.take (ls.countP picks) (source t)).1) := by
  induction ls generalizing t with
  | nil => exact .refl _
  | cons l ls ih =>
      have hrest := ih (f l t).2
      rw [thread, idsOf_cons]
      cases hl : picks l with
      | true =>
          obtain ⟨hlabel, hsource⟩ := h.picked l t hl
          rw [hsource] at hrest
          rw [hlabel, ident_withId_next, List.countP_cons_of_pos hl, IdSource.take,
            List.filter_cons_of_neg (by rw [hl]; exact Bool.false_ne_true)]
          exact (hrest.cons _).trans List.perm_middle.symm
      | false =>
          obtain ⟨hlabel, hsource⟩ := h.other l t hl
          rw [hsource] at hrest
          rw [hlabel, List.countP_cons_of_neg (ne_true_of_eq_false hl),
            List.filter_cons_of_pos (by rw [hl]; rfl), idsOf_cons, List.append_assoc]
          exact hrest.append_left _

/-- Where all labels are picked, the ids are what was handed out, in order. -/
theorem Hands.idsOf_thread_all (h : Hands picks source f) (hall : ∀ l, picks l = true)
    (ls : List Label) (t : τ) :
    idsOf (thread f ls t).1 = (IdSource.take ls.length (source t)).1 := by
  induction ls generalizing t with
  | nil => rfl
  | cons l ls ih =>
      obtain ⟨hlabel, hsource⟩ := h.picked l t (hall l)
      rw [thread, idsOf_cons, ih, hlabel, hsource, ident_withId_next, List.length_cons, IdSource.take]
      rfl

end Label

/-! ## 3. Giving ids on a page -/

namespace Forest

/-- How many nodes of a page have no id. -/
def lacking (ns : Forest) : Nat := Label.lacking (labels ns)

variable {σ τ : Type} [IdSource σ] {picks : Label → Bool} {source : τ → σ}
  {f : Label → τ → Label × τ}

theorem source_relabel (h : Label.Hands picks source f) (ns : Forest) (t : τ) :
    source (relabel f ns t).2 = (IdSource.take ((labels ns).countP picks) (source t)).2 := by
  rw [← h.source_thread, ← labels_relabel]

variable [LawfulIdSource σ]

theorem ids_relabel (h : Label.Hands picks source f) (ns : Forest) (t : τ) :
    (ids (relabel f ns t).1).Perm (Label.idsOf ((labels ns).filter (!picks ·)) ++
      (IdSource.take ((labels ns).countP picks) (source t)).1) := by
  have hids := h.idsOf_thread (labels ns) t
  rw [← labels_relabel] at hids
  exact hids

/-- **Giving ids to the nodes that lack one** adds what the source hands out. -/
theorem ids_assignIds (ns : Forest) (s : σ) :
    (ids (ns.assignIds false s).1).Perm (ids ns ++ (IdSource.take ns.lacking s).1) ∧
      (ns.assignIds false s).2 = (IdSource.take ns.lacking s).2 := by
  have hids := ids_relabel (Label.hands_assignId false) ns s
  simp only [Bool.false_or, Label.idsOf_filter_identified] at hids
  exact ⟨hids, source_relabel (Label.hands_assignId false) ns s⟩

/-- **Giving ids to all nodes** leaves what the source hands out. -/
theorem ids_assignIds_force (ns : Forest) (s : σ) :
    ids (ns.assignIds true s).1 = (IdSource.take (labels ns).length s).1 ∧
      (ns.assignIds true s).2 = (IdSource.take (labels ns).length s).2 := by
  have hids := (Label.hands_assignId true).idsOf_thread_all (fun _ => rfl) (labels ns) s
  have hsource := source_relabel (Label.hands_assignId true) ns s
  rw [← labels_relabel] at hids
  simp only [Bool.true_or, List.countP_true] at hsource
  exact ⟨hids, hsource⟩

/-- **Giving new ids for those that are taken** keeps the others and adds what the source hands
    out. -/
theorem ids_replaceIds (taken : String → Bool) (ns : Forest) (s : σ) :
    (ids (ns.replaceIds taken s).1).Perm
        ((ids ns).filter (!taken ·) ++ (IdSource.take ((ids ns).countP taken) s).1) ∧
      (ns.replaceIds taken s).2 =
        ((IdSource.take ((ids ns).countP taken) s).2, (ids ns).countP taken) := by
  have hids := ids_relabel (Label.hands_replaceId taken) ns (s, 0)
  have hsource := source_relabel (Label.hands_replaceId taken) ns (s, 0)
  have hcount := Label.count_replaceId taken (labels ns) (s, 0)
  rw [← labels_relabel, Nat.zero_add] at hcount
  rw [Label.idsOf_filter_free, ← Label.countP_idsOf] at hids
  rw [← Label.countP_idsOf] at hsource hcount
  exact ⟨hids, Prod.ext hsource hcount⟩

omit [LawfulIdSource σ] in
/-- Where every node has an id, giving the missing ones changes nothing, and no id is drawn. -/
theorem assignIds_eq_self {ns : Forest} (h : ∀ l ∈ labels ns, l.ident ≠ none) (s : σ) :
    ns.assignIds false s = (ns, s) := by
  refine relabel_eq_self (fun l hl s => ?_) s
  obtain ⟨id, hid⟩ := Option.ne_none_iff_exists'.mp (h l hl)
  rw [Label.assignId, hid, Option.isNone_some, Bool.or_false, if_neg Bool.false_ne_true]

end Forest

namespace Node

variable {σ : Type} [IdSource σ]

theorem assignIds_eq (force : Bool) (n : Node) (s : σ) :
    Forest.assignIds force [n] s = ([(n.assignIds force s).1], (n.assignIds force s).2) :=
  Node.relabel_eq (Label.assignId force) n s

theorem replaceIds_eq (taken : String → Bool) (n : Node) (s : σ) :
    Forest.replaceIds taken [n] s = ([(n.replaceIds taken s).1], (n.replaceIds taken s).2) :=
  Node.relabel_eq (Label.replaceId taken) n (s, 0)

end Node

/-! ## 4. Nothing but ids -/

/-- The second label is the first one, but that its id may be another; an id that is to be kept
    is. -/
structure Label.Renamed (keeps : String → Prop) (l m : Label) : Prop where
  same : ∃ id, m = { l with id := id }
  kept : ∀ id, l.ident = some id → keeps id → m.ident = some id

/-- The second page is the first one, but that ids may be others; those that are to be kept are. -/
inductive Forest.Renamed (keeps : String → Prop) : List Node → List Node → Prop where
  | nil : Forest.Renamed keeps [] []
  | cons {n m : Node} {ns ms : List Node} (label : n.label.Renamed keeps m.label)
      (list : m.list.isSome = n.list.isSome) (below : Forest.Renamed keeps n.children m.children)
      (rest : Forest.Renamed keeps ns ms) : Forest.Renamed keeps (n :: ns) (m :: ms)

namespace Label.Renamed

variable {keeps keeps' : String → Prop} {l m k : Label}

theorem trans (h : l.Renamed keeps m) (h' : m.Renamed keeps k) : l.Renamed keeps k where
  same := by
    obtain ⟨id, rfl⟩ := h.same
    obtain ⟨id', rfl⟩ := h'.same
    exact ⟨id', rfl⟩
  kept id hid hkeep := h'.kept id (h.kept id hid hkeep) hkeep

theorem mono (hkeeps : ∀ id, keeps' id → keeps id) (h : l.Renamed keeps m) : l.Renamed keeps' m :=
  ⟨h.same, fun id hid hkeep => h.kept id hid (hkeeps id hkeep)⟩

variable {σ τ : Type} [IdSource σ] {picks : Label → Bool} {source : τ → σ}
  {f : Label → τ → Label × τ}

/-- A visit that hands ids out keeps every id that it does not pick, and all but ids. -/
theorem of_hands (h : Hands picks source f) (l : Label) (t : τ)
    (hkeeps : ∀ id, l.ident = some id → keeps id → picks l = false) :
    l.Renamed keeps (f l t).1 where
  same := h.same l t
  kept id hid hkeep := by
    rw [(h.other l t (hkeeps id hid hkeep)).1]
    exact hid

/-- Every id is kept where ids are given to those that lack one. -/
theorem assignId (keeps : String → Prop) (l : Label) (s : σ) :
    l.Renamed keeps (l.assignId false s).1 :=
  of_hands (hands_assignId false) l s fun id hid _ => by rw [hid]; rfl

theorem assignId_force (l : Label) (s : σ) : l.Renamed (fun _ => False) (l.assignId true s).1 :=
  of_hands (hands_assignId true) l s fun _ _ hno => hno.elim

theorem replaceId (taken : String → Bool) (l : Label) (s : σ × Nat) :
    l.Renamed (fun id => taken id = false) (l.replaceId taken s).1 :=
  of_hands (hands_replaceId taken) l s fun id hid hfree => by rw [hid]; exact hfree

end Label.Renamed

namespace Forest

variable {keeps keeps' : String → Prop} {ns ms ls : Forest}

theorem Renamed.trans (h : Renamed keeps ns ms) (h' : Renamed keeps ms ls) :
    Renamed keeps ns ls := by
  induction h generalizing ls with
  | nil => exact h'
  | cons label list _ _ ihbelow ihrest =>
      cases h' with
      | cons label' list' below' rest' =>
          exact .cons (label.trans label') (list'.trans list) (ihbelow below') (ihrest rest')

theorem Renamed.mono (hkeeps : ∀ id, keeps' id → keeps id) (h : Renamed keeps ns ms) :
    Renamed keeps' ns ms := by
  induction h with
  | nil => exact .nil
  | cons label list _ _ ihbelow ihrest => exact .cons (label.mono hkeeps) list ihbelow ihrest

/-- **A visit that changes nothing but ids of labels changes nothing but ids of a page.** -/
theorem renamed_relabel {σ : Type} {f : Label → σ → Label × σ}
    (hf : ∀ (l : Label) s, l.Renamed keeps (f l s).1) (ns : Forest) (s : σ) :
    Renamed keeps ns (relabel f ns s).1 := by
  induction ns using Forest.induct generalizing s with
  | nil =>
      rw [relabel]
      exact .nil
  | cons n ns below rest =>
      rcases n with ⟨l, _ | cs⟩
      · rw [relabel, Node.relabel]
        exact .cons (hf l s) rfl .nil (rest _)
      · rw [relabel, Node.relabel]
        exact .cons (hf l s) rfl (below _) (rest _)

end Forest

/-- The same within one node. -/
theorem Node.renamed_relabel {σ : Type} {keeps : String → Prop} {f : Label → σ → Label × σ}
    (hf : ∀ (l : Label) s, l.Renamed keeps (f l s).1) (n : Node) (s : σ) :
    Forest.Renamed keeps [n] [(n.relabel f s).1] := by
  have h := Forest.renamed_relabel hf [n] s
  rw [relabel_eq] at h
  exact h

end Pagewright
