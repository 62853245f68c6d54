import Pagewright.Proofs.Json.Scalar

/-!
# Values read back from their lines

A value that is written over several lines is read again, as far as the reader goes down.

* `Json.induct` -- a statement on all values by one step: from the items of an array, and from the
  values of the members of an object;
* `Json.Exact` -- the numbers of a value are whole, and no object in it repeats a name;
* `Readable`, `Refused` -- what the reader makes of a value that stands within arrays and objects:
  it arrives, where these and those of the value are no more than the limit; otherwise a character
  is out of place;
* `readable`, `refused` -- **both hold of every exact value**;
* `read_pretty`, `read_pretty_of_deep` -- so that **a whole text reads as the value that was written
  exactly as long as it is not too deep**.
-/

namespace Pagewright

namespace Json

/-! ## 1. Induction -/

/-- **A statement holds of every value** that holds of those without parts, of an array where it
    holds of the items, and of an object where it holds of the values of the members. -/
@[elab_as_elim]
theorem induct {P : Json → Prop} (null : P .null) (bool : ∀ b, P (.bool b))
    (num : ∀ n, P (.num n)) (str : ∀ s, P (.str s))
    (arr : ∀ items, (∀ v ∈ items, P v) → P (.arr items))
    (obj : ∀ ms, (∀ m ∈ ms, P m.2) → P (.obj ms)) : ∀ v, P v :=
  -- of items and of members, that it holds of each
  @Json.rec P (fun items => ∀ v ∈ items, P v) (fun ms => ∀ m ∈ ms, P m.2) (fun m => P m.2)
    null bool num str arr obj
    (fun _ h => absurd h List.not_mem_nil)
    (fun _ _ hv hrest => List.forall_mem_cons.mpr ⟨hv, hrest⟩)
    (fun _ h => absurd h List.not_mem_nil)
    (fun _ _ hm hrest => List.forall_mem_cons.mpr ⟨hm, hrest⟩)
    (fun _ _ hv => hv)

/-! ## 2. Values without doubles -/

mutual

/-- No number in the value is a double. -/
def Integral : Json → Prop
  | .num (.real _) => False
  | .arr items => IntegralItems items
  | .obj ms => IntegralMembers ms
  | _ => True

/-- No number in the items is a double. -/
def IntegralItems : List Json → Prop
  | [] => True
  | v :: rest => Integral v ∧ IntegralItems rest

/-- No number in the values of the members is a double. -/
def IntegralMembers : List (String × Json) → Prop
  | [] => True
  | (_, v) :: rest => Integral v ∧ IntegralMembers rest

end

theorem integralItems_iff (items : List Json) :
    IntegralItems items ↔ ∀ v ∈ items, v.Integral := by
  induction items with
  | nil => simp [IntegralItems]
  | cons v rest ih => rw [IntegralItems, ih, List.forall_mem_cons]

theorem integralMembers_iff (ms : List (String × Json)) :
    IntegralMembers ms ↔ ∀ m ∈ ms, m.2.Integral := by
  induction ms with
  | nil => simp [IntegralMembers]
  | cons m rest ih => rw [IntegralMembers, ih, List.forall_mem_cons]

theorem distinctItems_iff (items : List Json) :
    DistinctItems items ↔ ∀ v ∈ items, v.Distinct := by
  induction items with
  | nil => simp [DistinctItems]
  | cons v rest ih => rw [DistinctItems, ih, List.forall_mem_cons]

theorem distinctMembers_iff (ms : List (String × Json)) :
    DistinctMembers ms ↔ ∀ m ∈ ms, m.2.Distinct := by
  induction ms with
  | nil => simp [DistinctMembers]
  | cons m rest ih => rw [DistinctMembers, ih, List.forall_mem_cons]

/-- The numbers in the value are whole, and no object in it repeats a name. -/
structure Exact (v : Json) : Prop where
  integral : v.Integral
  distinct : v.Distinct

theorem exact_str (s : String) : Exact (.str s) := ⟨trivial, trivial⟩

theorem exact_arr_iff (items : List Json) : Exact (.arr items) ↔ ∀ v ∈ items, v.Exact := by
  constructor
  · rintro ⟨hi, hd⟩
    rw [Integral, integralItems_iff] at hi
    rw [Distinct, distinctItems_iff] at hd
    exact fun v hv => ⟨hi v hv, hd v hv⟩
  · intro h
    refine ⟨?_, ?_⟩
    · rw [Integral, integralItems_iff]
      exact fun v hv => (h v hv).integral
    · rw [Distinct, distinctItems_iff]
      exact fun v hv => (h v hv).distinct

theorem exact_obj_iff (ms : List (String × Json)) :
    Exact (.obj ms) ↔ (Members.names ms).Nodup ∧ ∀ m ∈ ms, m.2.Exact := by
  constructor
  · rintro ⟨hi, hd⟩
    rw [Integral, integralMembers_iff] at hi
    rw [Distinct, distinctMembers_iff] at hd
    exact ⟨hd.1, fun m hm => ⟨hi m hm, hd.2 m hm⟩⟩
  · rintro ⟨hnames, h⟩
    refine ⟨?_, ?_⟩
    · rw [Integral, integralMembers_iff]
      exact fun m hm => (h m hm).integral
    · rw [Distinct, distinctMembers_iff]
      exact ⟨hnames, fun m hm => (h m hm).distinct⟩

/-! ## 3. Between items and between members -/

section Lines

variable {rules : ReadRules} {stack : List Frame} {q : ReadState} {ds : List Char} {v : Json}
  {limit : Nat}

theorem toList_newLine (level : Nat) :
    (newLine level).toList = '\n' :: List.replicate (2 * level) ' ' := by
  simp only [newLine, String.toList_append, String.toList_ofList]
  rfl

theorem isBlank_of_mem_newLine (level : Nat) : ∀ c ∈ (newLine level).toList, isBlank c = true := by
  intro c hc
  rw [toList_newLine, List.mem_cons] at hc
  rcases hc with rfl | hc
  · rfl
  · rw [(List.mem_replicate.mp hc).2]
    rfl

/-- A new line between tokens changes nothing. -/
theorem run_newLine (h : q.phase.between = true) (level : Nat) :
    run rules q ((newLine level).toList ++ ds) = run rules q ds :=
  run_append_of_ok (run_blanks h (isBlank_of_mem_newLine level))

/-- A new line ends a value. -/
theorem run_newLine_of_arrives (h : Arrives v stack q) (level : Nat) :
    run rules q ((newLine level).toList ++ ds) = run rules (deliver v stack) ds := by
  have hbetween := between_deliver v stack
  have hfirst : step rules q '\n' = .ok (deliver v stack) := by
    rw [step_of_arrives h rfl, ← step_of_between hbetween, step_blank hbetween rfl]
  have hrest : run rules (deliver v stack) (List.replicate (2 * level) ' ') =
      .ok (deliver v stack) :=
    run_blanks hbetween fun c hc => by
      rw [(List.mem_replicate.mp hc).2]
      rfl
  rw [toList_newLine, List.cons_append, run_cons_of_ok hfirst, run_append_of_ok hrest]

/-- A comma after an item: the next one may come. -/
theorem run_comma_of_item {before : List Json} (h : Arrives v (.item before :: stack) q) :
    run rules q (',' :: ds) = run rules ⟨.item (v :: before) :: stack, .value⟩ ds :=
  run_cons_of_ok (step_of_arrives h rfl)

/-- A new line and a bracket after an item: the array is read. -/
theorem run_close_of_item {before : List Json} (h : Arrives v (.item before :: stack) q)
    (level : Nat) : run rules q ((newLine level).toList ++ [']']) =
      .ok (deliver (.arr (v :: before).reverse) stack) := by
  rw [run_newLine_of_arrives h]
  rfl

/-- A comma after a member: the next name may come. -/
theorem run_comma_of_member {before : List (String × Json)} {k : String}
    (h : Arrives v (.member before k :: stack) q) :
    run rules q (',' :: ds) = run rules ⟨stack, .nextName ((k, v) :: before)⟩ ds :=
  run_cons_of_ok (step_of_arrives h rfl)

/-- A new line and a brace after a member: the object is read. -/
theorem run_close_of_member {before : List (String × Json)} {k : String}
    (h : Arrives v (.member before k :: stack) q) (level : Nat) :
    run rules q ((newLine level).toList ++ ['\x7d']) =
      .ok (deliver (.obj (Members.ofPairs ((k, v) :: before).reverse)) stack) := by
  rw [run_newLine_of_arrives h]
  rfl

/-- The name of a member may come next, after these members. -/
inductive AwaitsName : List (String × Json) → Phase → Prop where
  | first : AwaitsName [] .firstName
  | next (before : List (String × Json)) : AwaitsName before (.nextName before)

/-- A name on a line of its own, and the colon after it. -/
theorem run_name {before : List (String × Json)} {phase : Phase} (h : AwaitsName before phase)
    (level : Nat) (k : String) :
    run rules ⟨stack, phase⟩ ((newLine level).toList ++ ((quoted k).toList ++ (':' :: ' ' :: ds))) =
      run rules ⟨.member before k :: stack, .value⟩ ds := by
  have hbetween : phase.between = true := by cases h <;> rfl
  have hopen : step rules ⟨stack, phase⟩ '"' = .ok ⟨stack, .text (.name before) [] .plain⟩ := by
    cases h <;> rfl
  have hclose : closeString stack (.name before) k.toList.reverse =
      ⟨stack, .afterName before k⟩ := by
    rw [closeString, ofList_reverse_reverse]
  have hcolon : step rules ⟨stack, .afterName before k⟩ ':' =
      .ok ⟨.member before k :: stack, .value⟩ := rfl
  have hblank : step rules ⟨.member before k :: stack, .value⟩ ' ' =
      .ok ⟨.member before k :: stack, .value⟩ := rfl
  rw [run_newLine hbetween, toList_quoted, List.cons_append, run_cons_of_ok hopen,
    run_append_of_ok (run_quoted (.name before) k), hclose, run_cons_of_ok hcolon,
    run_cons_of_ok hblank]

end Lines

/-! ## 4. Values that are not too deep -/

section Depth

variable {rules : ReadRules} {limit : Nat}

/-- **A value is read where the arrays and objects around it and within it are no more than the
    limit.** -/
def Readable (rules : ReadRules) (limit : Nat) (v : Json) : Prop :=
  ∀ (level : Nat) (stack : List Frame) (phase : Phase), phase.awaits = true →
    v.depth + stack.length ≤ limit →
      ∃ q, run rules ⟨stack, phase⟩ (prettyAt level v).toList = .ok q ∧ Arrives v stack q

theorem readable_of_deliver {v : Json}
    (h : ∀ (level : Nat) (stack : List Frame) (phase : Phase), phase.awaits = true →
      v.depth + stack.length ≤ limit →
        run rules ⟨stack, phase⟩ (prettyAt level v).toList = .ok (deliver v stack)) :
    Readable rules limit v :=
  fun level stack phase hphase hdepth => ⟨_, h level stack phase hphase hdepth, .handed v stack⟩

theorem toList_prettyItems_singleton (level : Nat) (v : Json) :
    (prettyItems level [v]).toList = (newLine level).toList ++ (prettyAt level v).toList := by
  rw [prettyItems, String.toList_append]

theorem toList_prettyItems_cons_cons (level : Nat) (v w : Json) (rest : List Json) :
    (prettyItems level (v :: w :: rest)).toList = (newLine level).toList ++
      ((prettyAt level v).toList ++ (',' :: (prettyItems level (w :: rest)).toList)) := by
  rw [prettyItems]
  · simp only [String.toList_append, List.append_assoc]
    rfl
  · exact List.cons_ne_nil w rest

/-- **Items read in turn**, and the bracket after them ends the array. -/
theorem run_items {items : List Json} (hread : ∀ v ∈ items, Readable rules limit v)
    (hne : items ≠ []) (level level' : Nat) (before : List Json) (stack : List Frame)
    {phase : Phase} (hphase : phase.awaits = true)
    (hdepth : depthItems items + (stack.length + 1) ≤ limit) :
    run rules ⟨.item before :: stack, phase⟩
        ((prettyItems level items).toList ++ ((newLine level').toList ++ [']'])) =
      .ok (deliver (.arr (before.reverse ++ items)) stack) := by
  induction items generalizing before phase with
  | nil => exact absurd rfl hne
  | cons v rest ih =>
      rw [List.forall_mem_cons] at hread
      rw [depthItems] at hdepth
      obtain ⟨q, hq, harrives⟩ := hread.1 level (.item before :: stack) phase hphase
        (by rw [List.length_cons]; omega)
      -- the printer writes a comma only where another item follows
      cases rest with
      | nil =>
          rw [toList_prettyItems_singleton, List.append_assoc,
            run_newLine (between_of_awaits hphase), run_append_of_ok hq,
            run_close_of_item harrives, List.reverse_cons]
      | cons w rest =>
          have hphase' : Phase.value.awaits = true := rfl
          have hrest := ih hread.2 (List.cons_ne_nil w rest) (v :: before) hphase' (by omega)
          rw [toList_prettyItems_cons_cons, List.append_assoc,
            run_newLine (between_of_awaits hphase), List.append_assoc, run_append_of_ok hq,
            List.cons_append, run_comma_of_item harrives, hrest, List.reverse_cons,
            List.append_assoc, List.singleton_append]

theorem toList_prettyMembers_singleton (level : Nat) (k : String) (v : Json) :
    (prettyMembers level [(k, v)]).toList = (newLine level).toList ++
      ((quoted k).toList ++ (':' :: ' ' :: (prettyAt level v).toList)) := by
  rw [prettyMembers]
  simp only [String.toList_append, List.append_assoc]
  rfl

theorem toList_prettyMembers_cons_cons (level : Nat) (k : String) (v : Json) (m : String × Json)
    (rest : List (String × Json)) :
    (prettyMembers level ((k, v) :: m :: rest)).toList =
      (newLine level).toList ++ ((quoted k).toList ++ (':' :: ' ' :: ((prettyAt level v).toList ++
        (',' :: (prettyMembers level (m :: rest)).toList)))) := by
  rw [prettyMembers]
  · simp only [String.toList_append, List.append_assoc]
    rfl
  · exact List.cons_ne_nil m rest

/-- **Members read in turn**, and the brace after them ends the object. -/
theorem run_members {ms : List (String × Json)} (hread : ∀ m ∈ ms, Readable rules limit m.2)
    (hne : ms ≠ []) (level level' : Nat) {before : List (String × Json)} (stack : List Frame)
    {phase : Phase} (hphase : AwaitsName before phase)
    (hdepth : depthMembers ms + (stack.length + 1) ≤ limit) :
    run rules ⟨stack, phase⟩
        ((prettyMembers level ms).toList ++ ((newLine level').toList ++ ['\x7d'])) =
      .ok (deliver (.obj (Members.ofPairs (before.reverse ++ ms))) stack) := by
  induction ms generalizing before phase with
  | nil => exact absurd rfl hne
  | cons m rest ih =>
      obtain ⟨k, v⟩ := m
      rw [List.forall_mem_cons] at hread
      rw [depthMembers] at hdepth
      obtain ⟨q, hq, harrives⟩ := hread.1 level (.member before k :: stack) .value rfl
        (by rw [List.length_cons]; simp only; omega)
      cases rest with
      | nil =>
          rw [toList_prettyMembers_singleton]
          simp only [List.append_assoc, List.cons_append]
          rw [run_name hphase, run_append_of_ok hq, run_close_of_member harrives,
            List.reverse_cons]
      | cons w rest =>
          have hrest := ih hread.2 (List.cons_ne_nil w rest)
            (.next ((k, v) :: before)) (by omega)
          rw [toList_prettyMembers_cons_cons]
          simp only [List.append_assoc, List.cons_append]
          rw [run_name hphase, run_append_of_ok hq, run_comma_of_member harrives, hrest,
            List.reverse_cons, List.append_assoc, List.singleton_append]

theorem mayOpen_iff (hrules : rules.depth = some limit) (stack : List Frame) :
    mayOpen rules stack = true ↔ stack.length < limit := by
  simp only [mayOpen, hrules, decide_eq_true_eq]

theorem step_bracket (rules : ReadRules) (stack : List Frame) {phase : Phase}
    (hphase : phase.awaits = true) :
    step rules ⟨stack, phase⟩ '[' = if mayOpen rules stack then
      .ok ⟨.item [] :: stack, .firstItem⟩ else .error .malformed :=
  step_awaits hphase rfl (by decide)

theorem step_brace (rules : ReadRules) (stack : List Frame) {phase : Phase}
    (hphase : phase.awaits = true) :
    step rules ⟨stack, phase⟩ '\x7b' = if mayOpen rules stack then
      .ok ⟨stack, .firstName⟩ else .error .malformed :=
  step_awaits hphase rfl (by decide)

theorem toList_prettyAt_arr (level : Nat) {items : List Json} (hne : items ≠ []) :
    (prettyAt level (.arr items)).toList = '[' :: ((prettyItems (level + 1) items).toList ++
      ((newLine level).toList ++ [']'])) := by
  rw [prettyAt]
  · simp only [String.toList_append, List.append_assoc]
    rfl
  · exact hne

theorem toList_prettyAt_obj (level : Nat) {ms : List (String × Json)} (hne : ms ≠ []) :
    (prettyAt level (.obj ms)).toList = '\x7b' :: ((prettyMembers (level + 1) ms).toList ++
      ((newLine level).toList ++ ['\x7d'])) := by
  rw [prettyAt]
  · simp only [String.toList_append, List.append_assoc]
    rfl
  · exact hne

theorem toList_prettyAt_arr_nil (level : Nat) : (prettyAt level (.arr [])).toList = ['[', ']'] := by
  rw [prettyAt]
  rfl

theorem toList_prettyAt_obj_nil (level : Nat) :
    (prettyAt level (.obj [])).toList = ['\x7b', '\x7d'] := by
  rw [prettyAt]
  rfl

/-- A word is known by its first character, and the others follow. -/
theorem readable_of_word {v : Json} (c : Char) (word : List Char)
    (htext : ∀ level, (prettyAt level v).toList = c :: word) (hblank : isBlank c = false)
    (hc : c ≠ ']') (hopen : ∀ stack, openValue rules stack c = .ok ⟨stack, .word word v⟩)
    (hrun : ∀ stack, run rules ⟨stack, .word word v⟩ word = .ok (deliver v stack)) :
    Readable rules limit v := by
  refine readable_of_deliver fun level stack phase hphase _ => ?_
  have hfirst : step rules ⟨stack, phase⟩ c = .ok ⟨stack, .word word v⟩ := by
    rw [step_awaits hphase hblank hc, hopen]
  rw [htext, run_cons_of_ok hfirst, hrun]

theorem readable_null : Readable rules limit .null := by
  refine readable_of_word 'n' ['u', 'l', 'l'] (fun level => ?_) rfl (by decide) (fun _ => rfl)
    (fun _ => rfl)
  rw [prettyAt_eq_atomText level .null nofun nofun]
  rfl

theorem readable_bool (b : Bool) : Readable rules limit (.bool b) := by
  cases b with
  | true =>
      refine readable_of_word 't' ['r', 'u', 'e'] (fun level => ?_) rfl (by decide)
        (fun _ => rfl) (fun _ => rfl)
      rw [prettyAt_eq_atomText level (.bool true) nofun nofun]
      rfl
  | false =>
      refine readable_of_word 'f' ['a', 'l', 's', 'e'] (fun level => ?_) rfl (by decide)
        (fun _ => rfl) (fun _ => rfl)
      rw [prettyAt_eq_atomText level (.bool false) nofun nofun]
      rfl

theorem readable_str (s : String) : Readable rules limit (.str s) := by
  refine readable_of_deliver fun level stack phase hphase _ => ?_
  have hopen : step rules ⟨stack, phase⟩ '"' = .ok ⟨stack, .text .value [] .plain⟩ :=
    step_awaits hphase rfl (by decide)
  have htext : (prettyAt level (.str s)).toList = '"' :: (s.toList.flatMap escape ++ ['"']) := by
    rw [prettyAt_eq_atomText level (.str s) nofun nofun, atomText]
    exact toList_quoted s
  rw [htext, run_cons_of_ok hopen, run_quoted, closeString, ofList_reverse_reverse]

theorem readable_whole (n : Whole) : Readable rules limit (.num (.whole n)) := by
  intro level stack phase hphase _
  have htext : prettyAt level (.num (.whole n)) = numberText (.whole n) := by
    rw [prettyAt_eq_atomText level (.num (.whole n)) nofun nofun, atomText]
  rw [htext]
  exact arrives_whole n hphase

theorem readable_arr (hrules : rules.depth = some limit) {items : List Json}
    (h : ∀ v ∈ items, Readable rules limit v) : Readable rules limit (.arr items) := by
  refine readable_of_deliver fun level stack phase hphase hdepth => ?_
  rw [depth] at hdepth
  have hopen := step_bracket rules stack hphase
  rw [if_pos ((mayOpen_iff hrules stack).mpr (by omega))] at hopen
  by_cases hne : items = []
  · rw [hne, toList_prettyAt_arr_nil, run_cons_of_ok hopen]
    rfl
  · rw [toList_prettyAt_arr level hne, run_cons_of_ok hopen]
    exact run_items h hne (level + 1) level [] stack rfl (by omega)

theorem readable_obj (hrules : rules.depth = some limit) {ms : List (String × Json)}
    (hd : (Members.names ms).Nodup) (h : ∀ m ∈ ms, Readable rules limit m.2) :
    Readable rules limit (.obj ms) := by
  refine readable_of_deliver fun level stack phase hphase hdepth => ?_
  rw [depth] at hdepth
  have hopen := step_brace rules stack hphase
  rw [if_pos ((mayOpen_iff hrules stack).mpr (by omega))] at hopen
  by_cases hne : ms = []
  · rw [hne, toList_prettyAt_obj_nil, run_cons_of_ok hopen]
    rfl
  · rw [toList_prettyAt_obj level hne, run_cons_of_ok hopen,
      run_members h hne (level + 1) level stack .first (by omega), List.reverse_nil,
      List.nil_append, Members.ofPairs_eq_self hd]

/-- **Every value reads back**, as far down as the limit goes. -/
theorem readable (hrules : rules.depth = some limit) (v : Json) :
    v.Exact → Readable rules limit v := by
  induction v using induct with
  | null => exact fun _ => readable_null
  | bool b => exact fun _ => readable_bool b
  | num n =>
      intro h
      cases n with
      | whole n => exact readable_whole n
      | real x => exact h.integral.elim
  | str s => exact fun _ => readable_str s
  | arr items ih =>
      intro h
      rw [exact_arr_iff] at h
      exact readable_arr hrules fun v hv => ih v hv (h v hv)
  | obj ms ih =>
      intro h
      rw [exact_obj_iff] at h
      exact readable_obj hrules h.1 fun m hm => ih m hm (h.2 m hm)

/-! ## 5. Values that are too deep -/

/-- **A character is out of place where the arrays and objects around a value and within it are more
    than the limit.** -/
def Refused (rules : ReadRules) (limit : Nat) (v : Json) : Prop :=
  ∀ (level : Nat) (stack : List Frame) (phase : Phase), phase.awaits = true →
    stack.length ≤ limit → limit < v.depth + stack.length →
      run rules ⟨stack, phase⟩ (prettyAt level v).toList = .error .malformed

/-- A value without parts is never too deep. -/
theorem refused_of_depth_eq_zero {v : Json} (h : v.depth = 0) : Refused rules limit v := by
  intro level stack phase _ hstack hdeep
  omega

/-- Of items that go too deep, the first that does is out of place. -/
theorem run_items_of_deep {items : List Json} (hread : ∀ v ∈ items, Readable rules limit v)
    (hrefuse : ∀ v ∈ items, Refused rules limit v) (level : Nat) (before : List Json)
    {stack : List Frame} {phase : Phase} (hphase : phase.awaits = true)
    (hstack : stack.length + 1 ≤ limit) (hdeep : limit < depthItems items + (stack.length + 1)) :
    run rules ⟨.item before :: stack, phase⟩ (prettyItems level items).toList =
      .error .malformed := by
  induction items generalizing before phase with
  | nil =>
      rw [depthItems] at hdeep
      omega
  | cons v rest ih =>
      rw [List.forall_mem_cons] at hread hrefuse
      rw [depthItems] at hdeep
      have hbetween := between_of_awaits hphase
      -- if this item is not too deep, it is read, and one that comes after it is
      by_cases hv : limit < v.depth + (stack.length + 1)
      · have hfails := hrefuse.1 level (.item before :: stack) phase hphase hstack hv
        cases rest with
        | nil => rw [toList_prettyItems_singleton, run_newLine hbetween, hfails]
        | cons w rest =>
            rw [toList_prettyItems_cons_cons, run_newLine hbetween, run_append_of_error hfails]
      · obtain ⟨q, hq, harrives⟩ := hread.1 level (.item before :: stack) phase hphase
          (by rw [List.length_cons]; omega)
        cases rest with
        | nil =>
            rw [depthItems] at hdeep
            omega
        | cons w rest =>
            rw [toList_prettyItems_cons_cons, run_newLine hbetween, run_append_of_ok hq,
              run_comma_of_item harrives]
            exact ih hread.2 hrefuse.2 (v :: before) (rfl : Phase.value.awaits = true) (by omega)

/-- Of members that go too deep, the first that does is out of place. -/
theorem run_members_of_deep {ms : List (String × Json)}
    (hread : ∀ m ∈ ms, Readable rules limit m.2) (hrefuse : ∀ m ∈ ms, Refused rules limit m.2)
    (level : Nat) {before : List (String × Json)} {stack : List Frame} {phase : Phase}
    (hphase : AwaitsName before phase) (hstack : stack.length + 1 ≤ limit)
    (hdeep : limit < depthMembers ms + (stack.length + 1)) :
    run rules ⟨stack, phase⟩ (prettyMembers level ms).toList = .error .malformed := by
  induction ms generalizing before phase with
  | nil =>
      rw [depthMembers] at hdeep
      omega
  | cons m rest ih =>
      obtain ⟨k, v⟩ := m
      rw [List.forall_mem_cons] at hread hrefuse
      rw [depthMembers] at hdeep
      by_cases hv : limit < v.depth + (stack.length + 1)
      · have hfails := hrefuse.1 level (.member before k :: stack) .value rfl hstack hv
        cases rest with
        | nil => rw [toList_prettyMembers_singleton, run_name hphase, hfails]
        | cons w rest =>
            rw [toList_prettyMembers_cons_cons, run_name hphase, run_append_of_error hfails]
      · obtain ⟨q, hq, harrives⟩ := hread.1 level (.member before k :: stack) .value rfl
          (by rw [List.length_cons]; simp only; omega)
        cases rest with
        | nil =>
            rw [depthMembers] at hdeep
            omega
        | cons w rest =>
            rw [toList_prettyMembers_cons_cons, run_name hphase, run_append_of_ok hq,
              run_comma_of_member harrives]
            exact ih hread.2 hrefuse.2 (.next ((k, v) :: before)) (by omega)

theorem refused_arr (hrules : rules.depth = some limit) {items : List Json}
    (hread : ∀ v ∈ items, Readable rules limit v)
    (hrefuse : ∀ v ∈ items, Refused rules limit v) : Refused rules limit (.arr items) := by
  intro level stack phase hphase hstack hdeep
  rw [depth] at hdeep
  have hopen := step_bracket rules stack hphase
  -- either the bracket itself is one too many, or something within it is
  by_cases hfull : stack.length < limit
  · rw [if_pos ((mayOpen_iff hrules stack).mpr hfull)] at hopen
    have hne : items ≠ [] := by
      rintro rfl
      rw [depthItems] at hdeep
      omega
    rw [toList_prettyAt_arr level hne, run_cons_of_ok hopen]
    exact run_append_of_error
      (run_items_of_deep hread hrefuse (level + 1) [] rfl hfull (by omega))
  · rw [if_neg (fun hmay => hfull ((mayOpen_iff hrules stack).mp hmay))] at hopen
    by_cases hne : items = []
    · rw [hne, toList_prettyAt_arr_nil, run_cons_of_error hopen]
    · rw [toList_prettyAt_arr level hne, run_cons_of_error hopen]

theorem refused_obj (hrules : rules.depth = some limit) {ms : List (String × Json)}
    (hread : ∀ m ∈ ms, Readable rules limit m.2)
    (hrefuse : ∀ m ∈ ms, Refused rules limit m.2) : Refused rules limit (.obj ms) := by
  intro level stack phase hphase hstack hdeep
  rw [depth] at hdeep
  have hopen := step_brace rules stack hphase
  by_cases hfull : stack.length < limit
  · rw [if_pos ((mayOpen_iff hrules stack).mpr hfull)] at hopen
    have hne : ms ≠ [] := by
      rintro rfl
      rw [depthMembers] at hdeep
      omega
    rw [toList_prettyAt_obj level hne, run_cons_of_ok hopen]
    exact run_append_of_error
      (run_members_of_deep hread hrefuse (level + 1) .first hfull (by omega))
  · rw [if_neg (fun hmay => hfull ((mayOpen_iff hrules stack).mp hmay))] at hopen
    by_cases hne : ms = []
    · rw [hne, toList_prettyAt_obj_nil, run_cons_of_error hopen]
    · rw [toList_prettyAt_obj level hne, run_cons_of_error hopen]

/-- **Every value that is too deep is refused.** -/
theorem refused (hrules : rules.depth = some limit) (v : Json) :
    v.Exact → Refused rules limit v := by
  induction v using induct with
  | null => exact fun _ => refused_of_depth_eq_zero rfl
  | bool b => exact fun _ => refused_of_depth_eq_zero rfl
  | num n => exact fun _ => refused_of_depth_eq_zero rfl
  | str s => exact fun _ => refused_of_depth_eq_zero rfl
  | arr items ih =>
      intro h
      rw [exact_arr_iff] at h
      exact refused_arr hrules (fun v hv => readable hrules v (h v hv)) fun v hv => ih v hv (h v hv)
  | obj ms ih =>
      intro h
      rw [exact_obj_iff] at h
      exact refused_obj hrules (fun m hm => readable hrules m.2 (h.2 m hm))
        fun m hm => ih m hm (h.2 m hm)

end Depth

/-! ## 6. Whole texts -/

/-- **A text reads as the value that was written**, where it is not too deep. -/
theorem read_pretty {v : Json} (h : v.Exact) (hdepth : v.depth ≤ 127) :
    read v.pretty = .ok v := by
  obtain ⟨q, hq, harrives⟩ :=
    readable (rfl : pageRules.depth = some 127) v h 0 [] .value rfl (by rw [List.length_nil]; omega)
  have hrun : run pageRules .start v.pretty.toList = .ok q := hq
  simp only [read, readWith, hrun, closeText_of_arrives harrives]
  rfl

/-- **The text of a value that is too deep is refused.** -/
theorem read_pretty_of_deep {v : Json} (h : v.Exact) (hdeep : 127 < v.depth) :
    read v.pretty = .error .malformed := by
  have hrun : run pageRules .start v.pretty.toList = .error .malformed :=
    refused (rfl : pageRules.depth = some 127) v h 0 [] .value rfl (Nat.zero_le _)
      (by rw [List.length_nil]; omega)
  simp only [read, readWith, hrun]

end Json

end Pagewright
