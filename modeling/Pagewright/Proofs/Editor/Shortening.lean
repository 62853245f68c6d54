import Mathlib.Data.List.Induction
import Pagewright.Editor.Subtitle

/-!
# Where subtitles are cut

A long text is cut before the last separator that begins in its first 21 characters, unless these
end with a word. This file says where that is without looking for separators.

* `Subtitle.SeparatorAhead` -- a blank, or a comma and a blank, stands at the start;
* `Subtitle.LastRun` -- the text before the last run of blanks;
* `Subtitle.Stays` -- how many characters stay, told by these two alone; `stays_iff`: **it is the
  number that the search comes to**;
* `ofText_shortens` -- what this says of subtitles, and that a subtitle is never shortened again.

The search passes over what belongs to a separator that has begun. `separatorsFrom_append` says
where this does not matter: where no separator goes on from one part of the text into the next.
-/

namespace Pagewright

namespace Subtitle

/-! ## 1. Separators at the start -/

/-- A separator stands at the start: a blank, or a comma and a blank. -/
def SeparatorAhead (cs : List Char) : Prop := [' '] <+: cs ∨ [',', ' '] <+: cs

theorem blankRun_nil : blankRun [] = 0 := rfl

theorem blankRun_blank (cs : List Char) : blankRun (' ' :: cs) = blankRun cs + 1 := by
  unfold blankRun
  simp

theorem blankRun_of_ne {c : Char} (h : c ≠ ' ') (cs : List Char) : blankRun (c :: cs) = 0 := by
  unfold blankRun
  simp [h]

theorem blankRun_eq_zero_iff (cs : List Char) : blankRun cs = 0 ↔ ¬ [' '] <+: cs := by
  cases cs with
  | nil => exact iff_of_true blankRun_nil (by simp)
  | cons c cs =>
      by_cases hc : c = ' '
      · have hrun := blankRun_blank cs
        rw [← hc] at hrun
        have hhead : [' '] <+: c :: cs := by simp [hc]
        exact iff_of_false (by omega) fun h => h hhead
      · have hhead : ¬ [' '] <+: c :: cs := by simp [Ne.symm hc]
        exact iff_of_true (blankRun_of_ne hc cs) hhead

theorem blankRun_of_notMem {cs : List Char} (h : ' ' ∉ cs) : blankRun cs = 0 := by
  rw [blankRun_eq_zero_iff]
  intro hhead
  exact h (hhead.subset (List.mem_singleton_self ' '))

theorem blankRun_replicate (n : Nat) (cs : List Char) :
    blankRun (List.replicate n ' ' ++ cs) = n + blankRun cs := by
  induction n with
  | zero => simp
  | succ n ih =>
      rw [List.replicate_succ, List.cons_append, blankRun_blank, ih]
      omega

theorem separatorLength_comma (cs : List Char) :
    separatorLength (',' :: cs) = if blankRun cs = 0 then 0 else blankRun cs + 1 := by
  rw [separatorLength, if_pos rfl]

theorem separatorLength_of_ne {c : Char} (h : c ≠ ',') (cs : List Char) :
    separatorLength (c :: cs) = blankRun (c :: cs) := by
  rw [separatorLength, if_neg h]

theorem separatorLength_eq_zero_iff (cs : List Char) :
    separatorLength cs = 0 ↔ ¬ SeparatorAhead cs := by
  cases cs with
  | nil => exact iff_of_true rfl (by simp [SeparatorAhead])
  | cons c cs =>
      unfold SeparatorAhead
      by_cases hc : c = ','
      · have hrun := blankRun_eq_zero_iff cs
        rw [hc, separatorLength_comma, List.cons_prefix_cons, List.cons_prefix_cons]
        split <;> simp_all
      · rw [separatorLength_of_ne hc, blankRun_eq_zero_iff, List.cons_prefix_cons (a := ',')]
        simp [Ne.symm hc]

theorem mem_of_separatorAhead {cs : List Char} (h : SeparatorAhead cs) : ' ' ∈ cs := by
  rcases h with h | h
  · exact h.subset (by simp)
  · exact h.subset (by simp)

/-! ## 2. The search from one part to the next -/

/-- No separator goes on from the one part into the other. -/
def Apart (x y : List Char) : Prop :=
  y.head? = some ' ' → x.getLast? ≠ some ' ' ∧ x.getLast? ≠ some ','

theorem getLast?_cons_of_some {c d : Char} {x : List Char} (h : x.getLast? = some d) :
    (c :: x).getLast? = some d := by
  rw [List.getLast?_cons, h, Option.getD_some]

theorem Apart.tail {c : Char} {x y : List Char} (h : Apart (c :: x) y) : Apart x y := by
  intro hy
  obtain ⟨hblank, hcomma⟩ := h hy
  exact ⟨fun e => hblank (getLast?_cons_of_some e), fun e => hcomma (getLast?_cons_of_some e)⟩

/-- A run of blanks ends within a part after which no blank follows one. -/
theorem blankRun_append_le {x y : List Char}
    (h : y.head? = some ' ' → ∃ c, x.getLast? = some c ∧ c ≠ ' ') :
    blankRun (x ++ y) ≤ x.length := by
  induction x with
  | nil =>
      have hy : ¬ [' '] <+: y := by
        intro hhead
        obtain ⟨rest, rfl⟩ := hhead
        obtain ⟨c, hc, _⟩ := h rfl
        cases hc
      rw [List.nil_append, (blankRun_eq_zero_iff y).mpr hy]
      exact Nat.zero_le _
  | cons c x ih =>
      by_cases hc : c = ' '
      · have hrest : blankRun (x ++ y) ≤ x.length := by
          refine ih fun hy => ?_
          obtain ⟨d, hd, hne⟩ := h hy
          rw [List.getLast?_cons, Option.some.injEq] at hd
          cases hx : x.getLast? with
          | none =>
              rw [hx, Option.getD_none, hc] at hd
              exact absurd hd.symm hne
          | some e =>
              rw [hx, Option.getD_some] at hd
              exact ⟨d, by rw [hd], hne⟩
        rw [hc, List.cons_append, blankRun_blank, List.length_cons]
        omega
      · rw [List.cons_append, blankRun_of_ne hc]
        exact Nat.zero_le _

theorem separatorLength_append_le {c : Char} {x y : List Char} (h : Apart (c :: x) y) :
    separatorLength (c :: (x ++ y)) ≤ x.length + 1 := by
  by_cases hc : c = ','
  · have hrest : blankRun (x ++ y) ≤ x.length := by
      refine blankRun_append_le fun hy => ?_
      obtain ⟨hblank, hcomma⟩ := h hy
      rw [List.getLast?_cons] at hblank hcomma
      cases hx : x.getLast? with
      | none => simp [hx, hc] at hcomma
      | some d =>
          rw [hx, Option.getD_some] at hblank
          exact ⟨d, rfl, fun e => hblank (congrArg some e)⟩
    rw [hc, separatorLength_comma]
    split <;> omega
  · have hrun : blankRun (c :: x ++ y) ≤ (c :: x).length := by
      refine blankRun_append_le fun hy => ?_
      have hblank := (h hy).1
      rw [List.getLast?_cons] at hblank ⊢
      exact ⟨_, rfl, fun e => hblank (congrArg some e)⟩
    rw [separatorLength_of_ne hc, ← List.cons_append]
    exact hrun

/-- **The search goes on afresh in the next part** where no separator goes on into it. -/
theorem separatorsFrom_append {x y : List Char} (h : Apart x y) (place within : Nat)
    (hwithin : within ≤ x.length) :
    ∃ before, separatorsFrom place within (x ++ y) =
      before ++ separatorsFrom (place + x.length) 0 y := by
  induction x generalizing place within with
  | nil =>
      have hnought : within = 0 := by simpa using hwithin
      exact ⟨[], by rw [hnought]; rfl⟩
  | cons c x ih =>
      have hplace : place + (c :: x).length = place + 1 + x.length := by
        rw [List.length_cons]
        omega
      rw [hplace, List.cons_append]
      cases within with
      | succ within =>
          have hshort : within ≤ x.length := by simpa using hwithin
          exact ih h.tail (place + 1) within hshort
      | zero =>
          have hlength := separatorLength_append_le h
          rw [separatorsFrom]
          cases hn : separatorLength (c :: (x ++ y)) with
          | zero => exact ih h.tail (place + 1) 0 (Nat.zero_le _)
          | succ n =>
              obtain ⟨before, hbefore⟩ := ih h.tail (place + 1) n (by omega)
              exact ⟨place :: before, congrArg (place :: ·) hbefore⟩

/-- What belongs to a separator is passed over. -/
theorem separatorsFrom_past (x y : List Char) (place : Nat) :
    separatorsFrom place x.length (x ++ y) = separatorsFrom (place + x.length) 0 y := by
  induction x generalizing place with
  | nil => rfl
  | cons c x ih =>
      have hplace : place + (c :: x).length = place + 1 + x.length := by
        rw [List.length_cons]
        omega
      rw [hplace, ← ih]
      rfl

theorem separatorsFrom_of_notMem {cs : List Char} (h : ' ' ∉ cs) (place within : Nat) :
    separatorsFrom place within cs = [] := by
  induction cs generalizing place within with
  | nil => rw [separatorsFrom]
  | cons c cs ih =>
      have hrest : ' ' ∉ cs := fun hmem => h (List.mem_cons_of_mem c hmem)
      cases within with
      | succ within => exact ih hrest (place + 1) within
      | zero =>
          have hnone : separatorLength (c :: cs) = 0 :=
            (separatorLength_eq_zero_iff _).mpr fun hahead => h (mem_of_separatorAhead hahead)
          rw [separatorsFrom, hnone]
          exact ih hrest (place + 1) 0

theorem le_of_mem_separatorsFrom {cs : List Char} {place within j : Nat}
    (h : j ∈ separatorsFrom place within cs) : place ≤ j := by
  induction cs generalizing place within with
  | nil =>
      rw [separatorsFrom] at h
      cases h
  | cons c cs ih =>
      cases within with
      | succ within =>
          have hlater : place + 1 ≤ j := ih h
          omega
      | zero =>
          rw [separatorsFrom] at h
          cases hn : separatorLength (c :: cs) with
          | zero =>
              rw [hn] at h
              have hlater : place + 1 ≤ j := ih h
              omega
          | succ n =>
              rw [hn] at h
              rcases List.mem_cons.mp h with rfl | hmem
              · exact Nat.le_refl _
              · have hlater : place + 1 ≤ j := ih hmem
                omega

/-- The first separator is at the start exactly where one stands there. -/
theorem head?_separators_eq_zero_iff (cs : List Char) :
    (separators cs).head? = some 0 ↔ SeparatorAhead cs := by
  rw [← not_iff_not, ← separatorLength_eq_zero_iff]
  cases cs with
  | nil => exact iff_of_true (by simp [separators, separatorsFrom]) rfl
  | cons c cs =>
      unfold separators
      rw [separatorsFrom]
      cases separatorLength (c :: cs) with
      | zero =>
          refine iff_of_true (fun hhead => ?_) rfl
          have hplace := le_of_mem_separatorsFrom (List.mem_of_mem_head? hhead)
          omega
      | succ n => exact iff_of_false (fun hne => hne rfl) (Nat.succ_ne_zero n)

/-- After a part from which no separator goes on, a separator with no blank behind it is the last
    one. -/
theorem getLast?_separators {x separator y : List Char} {c : Char}
    (hapart : Apart x (c :: separator ++ y))
    (hseparator : separatorLength (c :: separator ++ y) = separator.length + 1)
    (hy : ' ' ∉ y) : (separators (x ++ (c :: separator ++ y))).getLast? = some x.length := by
  obtain ⟨before, hbefore⟩ := separatorsFrom_append hapart 0 0 (Nat.zero_le _)
  have hlast : separatorsFrom (0 + x.length) 0 (c :: separator ++ y) = [x.length] := by
    rw [List.cons_append] at hseparator ⊢
    rw [separatorsFrom, hseparator]
    show (0 + x.length) :: separatorsFrom (0 + x.length + 1) separator.length (separator ++ y) = _
    rw [separatorsFrom_past, separatorsFrom_of_notMem hy, Nat.zero_add]
  unfold separators
  rw [hbefore, hlast, List.getLast?_append, List.getLast?_singleton, Option.some_or]

/-! ## 3. How many characters stay -/

/-- The last run of blanks in a text begins after this part of it. -/
def LastRun (cs before : List Char) : Prop :=
  ∃ n after, cs = before ++ (List.replicate (n + 1) ' ' ++ after) ∧
    before.getLast? ≠ some ' ' ∧ ' ' ∉ after

/-- How many characters of a long text stay: 21 where a separator stands behind them or no blank is
    in them, and otherwise those before the last run of blanks in them and before the comma there. -/
inductive Stays (cs : List Char) : Nat → Prop
  | whole (h : SeparatorAhead (cs.drop 21) ∨ ' ' ∉ cs.take 21) : Stays cs 21
  | run {before : List Char} (hword : ¬ SeparatorAhead (cs.drop 21))
      (hrun : LastRun (cs.take 21) before) (hcomma : before.getLast? ≠ some ',') :
      Stays cs before.length
  | comma {before : List Char} (hword : ¬ SeparatorAhead (cs.drop 21))
      (hrun : LastRun (cs.take 21) (before ++ [','])) : Stays cs before.length

/-- Where there is a blank, there is a last run of them. -/
theorem exists_lastRun {cs : List Char} (h : ' ' ∈ cs) : ∃ before, LastRun cs before := by
  induction cs using List.reverseRecOn with
  | nil => cases h
  | append_singleton cs c ih =>
      by_cases hmem : ' ' ∈ cs ∧ (c = ' ' → cs.getLast? = some ' ')
      · obtain ⟨before, n, after, hcs, hbefore, hafter⟩ := ih hmem.1
        by_cases hc : c = ' '
        · -- the run at the end is one longer
          have hend : after = [] := by
            have hlast := hmem.2 hc
            rcases List.eq_nil_or_concat after with e | ⟨rest, d, e⟩
            · exact e
            · rw [hcs, e, List.concat_eq_append] at hlast
              have hd : d = ' ' := by simpa using hlast
              rw [e, hd] at hafter
              simp at hafter
          refine ⟨before, n + 1, [], ?_, hbefore, List.not_mem_nil⟩
          rw [hcs, hend, hc, List.replicate_succ' (n := n + 1)]
          simp
        · refine ⟨before, n, after ++ [c], by rw [hcs]; simp, hbefore, ?_⟩
          simp [hafter, Ne.symm hc]
      · have hc : c = ' ' := by
          by_contra hne
          have hold : ' ' ∈ cs := by simpa [Ne.symm hne] using h
          exact hmem ⟨hold, fun e => absurd e hne⟩
        refine ⟨cs, 0, [], by rw [hc]; simp, fun hlast => ?_, List.not_mem_nil⟩
        exact hmem ⟨List.mem_of_getLast? hlast, fun _ => hlast⟩

theorem cut_of_separatorAhead {cs : List Char} (h : SeparatorAhead (cs.drop 21)) : cut cs = 21 := by
  unfold cut
  exact if_pos ((head?_separators_eq_zero_iff _).mpr h)

theorem cut_of_word {cs : List Char} (h : ¬ SeparatorAhead (cs.drop 21)) :
    cut cs = (separators (cs.take 21)).getLast?.getD 21 := by
  unfold cut
  exact if_neg fun hhead => h ((head?_separators_eq_zero_iff _).mp hhead)

/-- What stays is what the search comes to. -/
theorem eq_cut_of_stays {cs : List Char} {k : Nat} (h : Stays cs k) : k = cut cs := by
  cases h with
  | whole h =>
      by_cases hahead : SeparatorAhead (cs.drop 21)
      · rw [cut_of_separatorAhead hahead]
      · have hblank : ' ' ∉ cs.take 21 := h.resolve_left hahead
        have hnone : separators (cs.take 21) = [] := separatorsFrom_of_notMem hblank 0 0
        rw [cut_of_word hahead, hnone]
        rfl
  | @run before hword hrun hcomma =>
      obtain ⟨n, after, hcs, hblank, hafter⟩ := hrun
      have hlength : separatorLength (' ' :: List.replicate n ' ' ++ after) =
          (List.replicate n ' ').length + 1 := by
        rw [List.cons_append, separatorLength_of_ne (by decide), blankRun_blank,
          blankRun_replicate, blankRun_of_notMem hafter, List.length_replicate]
      have hlast := getLast?_separators (fun _ => ⟨hblank, hcomma⟩) hlength hafter
      rw [cut_of_word hword, hcs, List.replicate_succ, hlast, Option.getD_some]
  | @comma before hword hrun =>
      obtain ⟨n, after, hcs, hblank, hafter⟩ := hrun
      have hlength : separatorLength (',' :: List.replicate (n + 1) ' ' ++ after) =
          (List.replicate (n + 1) ' ').length + 1 := by
        rw [List.cons_append, separatorLength_comma, blankRun_replicate,
          blankRun_of_notMem hafter, List.length_replicate, if_neg (by omega)]
      have happart : Apart before (',' :: List.replicate (n + 1) ' ' ++ after) := by
        intro hhead
        simp at hhead
      have hlast := getLast?_separators happart hlength hafter
      rw [List.append_assoc] at hcs
      rw [cut_of_word hword, hcs]
      exact (congrArg (Option.getD · 21) hlast).symm

/-- **How many characters stay is told by the blanks and the comma before them**, and by nothing
    else. -/
theorem stays_iff (cs : List Char) (k : Nat) : Stays cs k ↔ k = cut cs := by
  have hexists : ∃ j, Stays cs j := by
    by_cases hwhole : SeparatorAhead (cs.drop 21) ∨ ' ' ∉ cs.take 21
    · exact ⟨21, .whole hwhole⟩
    · have hword : ¬ SeparatorAhead (cs.drop 21) := fun h => hwhole (Or.inl h)
      have hblank : ' ' ∈ cs.take 21 := by
        by_contra h
        exact hwhole (Or.inr h)
      obtain ⟨before, hrun⟩ := exists_lastRun hblank
      by_cases hcomma : before.getLast? = some ','
      · obtain ⟨rest, hrest⟩ := List.getLast?_eq_some_iff.mp hcomma
        rw [hrest] at hrun
        exact ⟨rest.length, .comma hword hrun⟩
      · exact ⟨before.length, .run hword hrun hcomma⟩
  constructor
  · exact eq_cut_of_stays
  · intro hk
    obtain ⟨j, hj⟩ := hexists
    rw [hk, ← eq_cut_of_stays hj]
    exact hj

theorem Stays.le {cs : List Char} {k : Nat} (h : Stays cs k) : k ≤ 21 := by
  have hlength : ∀ before : List Char, LastRun (cs.take 21) before → before.length ≤ 21 := by
    intro before hrun
    obtain ⟨n, after, hcs, _⟩ := hrun
    have hle := congrArg List.length hcs
    rw [List.length_take, List.length_append] at hle
    omega
  cases h with
  | whole h => exact Nat.le_refl 21
  | @run before hword hrun hcomma => exact hlength before hrun
  | @comma before hword hrun =>
      have hle := hlength _ hrun
      rw [List.length_append] at hle
      omega

/-! ## 4. Subtitles -/

theorem ofText_of_short {s : String} (h : s.length ≤ 24) : ofText s = s := by
  have hshort : s.toList.length ≤ greatestLength := by
    rw [String.length_toList]
    exact h
  unfold ofText shorten
  rw [if_pos hshort, String.ofList_toList]

theorem ofText_of_long {s : String} (h : 24 < s.length) :
    ofText s = String.ofList (s.toList.take (cut s.toList)) ++ "..." := by
  have hlong : ¬ s.toList.length ≤ greatestLength := by
    rw [String.length_toList]
    exact Nat.not_le_of_lt h
  unfold ofText shorten
  rw [if_neg hlong, String.ofList_append]
  rfl

theorem length_ofText_le (s : String) : (ofText s).length ≤ 24 := by
  by_cases h : s.length ≤ 24
  · rw [ofText_of_short h]
    exact h
  · have hcut : cut s.toList ≤ 21 := ((stays_iff s.toList _).mpr rfl).le
    have homission : "...".length = 3 := rfl
    rw [ofText_of_long (Nat.lt_of_not_le h), String.length_append, String.length_ofList,
      List.length_take, homission]
    omega

/-- **Subtitles.** A text of at most 24 characters is its own subtitle. Of a longer one so many
    characters stay as `Stays` says, which is one number for each text, and an omission mark takes
    the place of the others. So no subtitle is longer than 24 characters, and none is shortened
    again. -/
theorem ofText_shortens (s : String) :
    (s.length ≤ 24 → ofText s = s) ∧
    (24 < s.length → ∃ (k : Nat) (head rest : String), (∀ j, Stays s.toList j ↔ j = k) ∧
      s = head ++ rest ∧ head.length = k ∧ ofText s = head ++ "...") ∧
    (ofText s).length ≤ 24 ∧ ofText (ofText s) = ofText s := by
  have hlength := length_ofText_le s
  refine ⟨ofText_of_short, fun hlong => ?_, hlength, ofText_of_short hlength⟩
  have hcut : cut s.toList ≤ 21 := ((stays_iff s.toList _).mpr rfl).le
  refine ⟨cut s.toList, String.ofList (s.toList.take (cut s.toList)),
    String.ofList (s.toList.drop (cut s.toList)), stays_iff s.toList, ?_, ?_,
    ofText_of_long hlong⟩
  · rw [← String.ofList_append, List.take_append_drop, String.ofList_toList]
  · rw [String.length_ofList, List.length_take, String.length_toList]
    omega

/-- A comma and two blanks before a long word: the first five characters stay. -/
theorem ofText_shortens_greeting :
    let greeting := "Grüße,  Straßenbahnhaltestelle"
    "exactly twenty-four char".length ≤ 24 ∧
      ofText "exactly twenty-four char" = "exactly twenty-four char" ∧
      24 < greeting.length ∧ Stays greeting.toList 5 ∧ ofText greeting = "Grüße..." := by
  have hlong : 24 < "Grüße,  Straßenbahnhaltestelle".length := by decide
  have hstays : Stays "Grüße,  Straßenbahnhaltestelle".toList 5 := by
    have hword : ¬ SeparatorAhead ("Grüße,  Straßenbahnhaltestelle".toList.drop 21) := by
      unfold SeparatorAhead
      decide
    have hrun : LastRun ("Grüße,  Straßenbahnhaltestelle".toList.take 21)
        ("Grüße".toList ++ [',']) := ⟨1, "Straßenbahnha".toList, by decide, by decide, by decide⟩
    exact .comma hword hrun
  obtain ⟨k, head, rest, hk, hsplit, hlength, htext⟩ := (ofText_shortens _).2.1 hlong
  have hfive : head.length = 5 := by rw [hlength, (hk 5).mp hstays]
  have hhead : head = "Grüße" := by
    have htake := congrArg (fun s : String => s.toList.take 5) hsplit
    have hall : head.toList.length = 5 := by rw [String.length_toList, hfive]
    simp only [String.toList_append, ← hall, List.take_left] at htake
    rw [← String.ofList_toList (s := head), ← htake, hall]
    decide
  refine ⟨by decide, (ofText_shortens _).1 (by decide), hlong, hstays, ?_⟩
  rw [htext, hhead]
  rfl

end Subtitle

end Pagewright
