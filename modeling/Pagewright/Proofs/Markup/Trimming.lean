import Pagewright.Proofs.Markup.Portrait

/-!
# Trimming

With trimming, the white space at the end of each line of the source is taken away. This file says
what else is changed by it.

* `Rendered.lines` -- the lines of a source, one more than it has line ends: the last one may be
  empty;
* `Lines.splitOn_eq` -- **the splitter has one line less**, where nothing follows the last line end;
* `Forest.compile_trim` -- the rendering itself does not know whether its source will be trimmed;
* `trimming_line_by_line` -- so with trimming a page leaves the same out, and **each line of the
  trimmed source is the line of the plain one in its place**, without the white space at its end;
  but an empty last line is lost, together with the line end before it (`trimming_loses_line`);
* `Forest.endsLine_concat` -- there is such a line where the last node is a text that ends with a
  line end, or renders as nothing after another node.
-/

namespace Pagewright

/-! ## 1. Lines -/

theorem Text.dropEndBlanks_sublist (cs : List Char) : (Text.dropEndBlanks cs).Sublist cs := by
  have h : (cs.reverse.dropWhile Text.isBlank).Sublist cs.reverse := List.dropWhile_sublist _
  have hback := h.reverse
  rwa [List.reverse_reverse] at hback

namespace Lines

/-- The empty line after the last line end of a text, if nothing else follows there. -/
def afterEnd (cs : List Char) : List (List Char) :=
  if cs.getLast? = some '\n' then [[]] else []

theorem length_afterEnd (cs : List Char) :
    (afterEnd cs).length = if cs.getLast? = some '\n' then 1 else 0 := by
  rw [afterEnd]
  by_cases h : cs.getLast? = some '\n'
  · rw [if_pos h, if_pos h, List.length_singleton]
  · rw [if_neg h, if_neg h, List.length_nil]

/-- There is nothing to trim on an empty line. -/
theorem map_dropEndBlanks_afterEnd (cs : List Char) :
    (afterEnd cs).map Text.dropEndBlanks = afterEnd cs := by
  rw [afterEnd]
  by_cases h : cs.getLast? = some '\n'
  · rw [if_pos h]
    rfl
  · rw [if_neg h, List.map_nil]

theorem split_singleton {c : Char} (hc : c ≠ '\n') : split [c] = [[c]] := by
  rw [split, if_neg hc, split]

theorem split_cons_of_eq {c : Char} {cs line : List Char} {rest : List (List Char)}
    (hc : c ≠ '\n') (h : split cs = line :: rest) : split (c :: cs) = (c :: line) :: rest := by
  rw [split, if_neg hc, h]

theorem exists_split {cs : List Char} (h : cs ≠ []) : ∃ line rest, split cs = line :: rest := by
  obtain ⟨c, cs, rfl⟩ := List.exists_cons_of_ne_nil h
  by_cases hc : c = '\n'
  · subst hc
    exact ⟨[], split cs, rfl⟩
  · cases hs : split cs with
    | nil => exact ⟨[c], [], by rw [split, if_neg hc, hs]⟩
    | cons line rest => exact ⟨c :: line, rest, split_cons_of_eq hc hs⟩

/-- **A text has the lines that it is split into**, and the empty one after its last line end. -/
theorem splitOn_eq {cs : List Char} (h : cs ≠ []) :
    cs.splitOn '\n' = split cs ++ afterEnd cs := by
  induction cs with
  | nil => exact absurd rfl h
  | cons c cs ih =>
      rw [List.splitOn_cons_eq_if_modifyHead]
      cases cs with
      | nil =>
          by_cases hc : c = '\n'
          · subst hc
            rfl
          · have hend : afterEnd [c] = [] := if_neg fun e => hc (Option.some.inj e)
            rw [if_neg (mt beq_iff_eq.mp hc), split_singleton hc, hend]
            rfl
      | cons d ds =>
          have hne := List.cons_ne_nil d ds
          have hend : afterEnd (c :: d :: ds) = afterEnd (d :: ds) := by
            rw [afterEnd, List.getLast?_cons_cons, ← afterEnd]
          rw [ih hne, hend]
          by_cases hc : c = '\n'
          · subst hc
            rfl
          · obtain ⟨line, rest, hsplit⟩ := exists_split hne
            rw [if_neg (mt beq_iff_eq.mp hc), split_cons_of_eq hc hsplit, hsplit]
            rfl

/-- There is one line more than there are line ends. -/
theorem length_splitOn (cs : List Char) : (cs.splitOn '\n').length = cs.count '\n' + 1 := by
  induction cs with
  | nil => rfl
  | cons c cs ih =>
      rw [List.splitOn_cons_eq_if_modifyHead, List.count_cons]
      by_cases hc : (c == '\n') = true
      · rw [if_pos hc, if_pos hc, List.length_cons, ih]
      · rw [if_neg hc, if_neg hc, List.length_modifyHead, ih, Nat.add_zero]

/-- A line has no line end in it. -/
theorem not_mem_of_mem_splitOn {cs line : List Char} (h : line ∈ cs.splitOn '\n') :
    '\n' ∉ line := by
  induction cs generalizing line with
  | nil =>
      rw [List.splitOn_nil, List.mem_singleton] at h
      rw [h]
      exact List.not_mem_nil
  | cons c cs ih =>
      obtain ⟨first, rest, hsplit⟩ := List.exists_cons_of_ne_nil (List.splitOn_ne_nil '\n' cs)
      rw [hsplit] at ih
      rw [List.splitOn_cons_eq_if_modifyHead, hsplit] at h
      by_cases hc : c = '\n'
      · rw [if_pos (beq_iff_eq.mpr hc)] at h
        rcases List.mem_cons.mp h with rfl | h
        · exact List.not_mem_nil
        · exact ih h
      · rw [if_neg (mt beq_iff_eq.mp hc), List.modifyHead_cons] at h
        rcases List.mem_cons.mp h with rfl | h
        · rw [List.mem_cons, not_or]
          exact ⟨fun e => hc e.symm, ih List.mem_cons_self⟩
        · exact ih (List.mem_cons_of_mem _ h)

/-- **Each line of a text is trimmed**, but an empty last line is lost. -/
theorem splitOn_trim (s : String) :
    (trim s).toList.splitOn '\n' ++ afterEnd s.toList =
      (s.toList.splitOn '\n').map Text.dropEndBlanks := by
  have hchars : (trim s).toList =
      List.intercalate ['\n'] ((split s.toList).map Text.dropEndBlanks) := by
    rw [trim, joinLines, String.toList_intercalate, List.map_map]
    simp [Function.comp_def]
  by_cases hempty : s.toList = []
  · rw [hchars, hempty]
    rfl
  · have hsplit := splitOn_eq hempty
    have hends : ∀ line ∈ (split s.toList).map Text.dropEndBlanks, '\n' ∉ line := by
      intro line hline hmem
      obtain ⟨whole, hwhole, rfl⟩ := List.mem_map.mp hline
      have hof : whole ∈ s.toList.splitOn '\n' := by
        rw [hsplit]
        exact List.mem_append_left _ hwhole
      exact not_mem_of_mem_splitOn hof ((Text.dropEndBlanks_sublist whole).subset hmem)
    have hne : (split s.toList).map Text.dropEndBlanks ≠ [] := by
      obtain ⟨line, rest, h⟩ := exists_split hempty
      rw [h, List.map_cons]
      exact List.cons_ne_nil _ _
    rw [hchars, List.splitOn_intercalate '\n' hends hne, hsplit, List.map_append,
      map_dropEndBlanks_afterEnd]

end Lines

/-! ## 2. Sources -/

namespace Rendered

/-- The lines of the source: what stands between its line ends, before the first and after the
    last. -/
def lines (r : Rendered) : List (List Char) := r.source.toList.splitOn '\n'

/-- How many line ends the source has. -/
def lineEnds (r : Rendered) : Nat := r.source.toList.count '\n'

/-- Whether the source ends with a line end. -/
def endsLine (r : Rendered) : Bool := r.source.toList.getLast? == some '\n'

/-- The last line of the source, if it is an empty one after a line end. -/
def emptyLast (r : Rendered) : List (List Char) := Lines.afterEnd r.source.toList

/-- The same with its source trimmed. -/
def trimmed (r : Rendered) : Rendered := ⟨Lines.trim r.source, r.omissions⟩

theorem lines_trimmed (r : Rendered) :
    r.trimmed.lines ++ r.emptyLast = r.lines.map Text.dropEndBlanks :=
  Lines.splitOn_trim r.source

theorem lineEnds_trimmed (r : Rendered) :
    r.trimmed.lineEnds + (if r.endsLine then 1 else 0) = r.lineEnds := by
  have hcount := congrArg List.length r.lines_trimmed
  rw [List.length_append, List.length_map, lines, lines, Lines.length_splitOn,
    Lines.length_splitOn, emptyLast, Lines.length_afterEnd] at hcount
  simp only [lineEnds, endsLine, beq_iff_eq]
  omega

theorem lineEnds_trimmed_iff (r : Rendered) :
    r.trimmed.lineEnds = r.lineEnds ↔ r.endsLine = false := by
  have hends := r.lineEnds_trimmed
  cases hlast : r.endsLine with
  | false =>
      rw [hlast, if_neg Bool.false_ne_true, Nat.add_zero] at hends
      exact ⟨fun _ => rfl, fun _ => hends⟩
  | true =>
      rw [hlast, if_pos rfl] at hends
      constructor
      · intro heq
        omega
      · intro hfalse
        cases hfalse

end Rendered

/-- **The rendering does not know** whether its source will be trimmed. -/
theorem Forest.portrait_trim (ns : Forest) (trim : Bool) (maxDepth : Nat) : ∀ depth,
    Forest.portrait ⟨trim, maxDepth⟩ depth ns = Forest.portrait ⟨false, maxDepth⟩ depth ns := by
  have hlabel : ∀ (l : Label) (depth : Nat) (body : Portrait),
      l.portrait ⟨trim, maxDepth⟩ depth body = l.portrait ⟨false, maxDepth⟩ depth body :=
    fun _ _ _ => rfl
  have hnodes : ∀ depth, ns.map (Node.portrait ⟨trim, maxDepth⟩ depth) =
      ns.map (Node.portrait ⟨false, maxDepth⟩ depth) := by
    induction ns using Forest.induct with
    | nil => exact fun _ => rfl
    | cons n ns below rest =>
        intro depth
        have hbody : Forest.portrait ⟨trim, maxDepth⟩ (depth + 1) n.children =
            Forest.portrait ⟨false, maxDepth⟩ (depth + 1) n.children := by
          rw [Forest.portrait, below, Forest.portrait]
        rw [List.map_cons, List.map_cons, rest, n.portrait_eq, n.portrait_eq, hbody, hlabel]
  intro depth
  rw [Forest.portrait, hnodes, Forest.portrait]

/-- **A page with trimming is the page without, trimmed.** -/
theorem Forest.compile_trim (ns : Forest) (maxDepth : Nat) :
    ns.compile ⟨true, maxDepth⟩ = (ns.compile ⟨false, maxDepth⟩).trimmed := by
  rw [compile_eq, compile_eq, ns.portrait_trim true]
  rfl

/-- **Trimming works line by line, but loses an empty last line.** For every page and every limit of
    nesting, the page with trimming, beside the page without,

    * has the same diagnostics;
    * has as its lines those of the plain source from the first on, each without the white space at
      its end, and none is missing but an empty last one;
    * has the same number of line ends, but one less where the plain source ends with a line end;
      so it has as many exactly where the plain source does not end with one. -/
theorem trimming_line_by_line (ns : Forest) (maxDepth : Nat) :
    let plain := ns.compile ⟨false, maxDepth⟩
    let trimmed := ns.compile ⟨true, maxDepth⟩
    trimmed.diagnostics = plain.diagnostics ∧
      trimmed.lines ++ plain.emptyLast = plain.lines.map Text.dropEndBlanks ∧
      trimmed.lineEnds + (if plain.endsLine then 1 else 0) = plain.lineEnds ∧
      (trimmed.lineEnds = plain.lineEnds ↔ plain.endsLine = false) := by
  intro plain trimmed
  have htrimmed : trimmed = plain.trimmed := ns.compile_trim maxDepth
  rw [htrimmed]
  exact ⟨rfl, plain.lines_trimmed, plain.lineEnds_trimmed, plain.lineEnds_trimmed_iff⟩

/-- A paragraph, and after it a tag that is not an element. -/
def openEnded : Forest := [Node.ofTag "p", Node.ofTag "video"]

/-- **An empty last line is lost by trimming**, and the line end before it: the source of a
    paragraph with an empty place after it has two lines, and one when it is trimmed. -/
theorem trimming_loses_line :
    ¬ ∀ (ns : Forest) (maxDepth : Nat),
      let plain := ns.compile ⟨false, maxDepth⟩
      let trimmed := ns.compile ⟨true, maxDepth⟩
      trimmed.diagnostics = plain.diagnostics ∧ trimmed.lineEnds = plain.lineEnds ∧
        ∀ k : Nat, trimmed.lines[k]? = plain.lines[k]?.map Text.dropEndBlanks := by
  intro h
  have hends := (h openEnded 256).2.1
  have hplain : (openEnded.compile ⟨false, 256⟩).lineEnds = 1 := by decide +kernel
  have htrimmed : (openEnded.compile ⟨true, 256⟩).lineEnds = 0 := by decide +kernel
  rw [hplain, htrimmed] at hends
  cases hends

/-! ## 3. Where an empty line comes last -/

/-- A result that is the text of a call of this element, if there is one. -/
inductive Element.Calls (e : Element) : Except Diagnostic String → Prop
  | ok (arguments : List String) (suffix : String) : Calls e (.ok (e.callText arguments suffix))
  | error (d : Diagnostic) : Calls e (.error d)

namespace Element

theorem Calls.bind {e : Element} {α : Type} (x : Except Diagnostic α)
    {f : α → Except Diagnostic String} (hf : ∀ a, e.Calls (f a)) : e.Calls (x >>= f) := by
  cases x with
  | ok a => exact hf a
  | error d => exact .error d

theorem calls_picture (e : Element) (l : Label) (body : Portrait) :
    e.Calls (e.picture l body).1 := by
  unfold picture
  cases e.layout with
  | plain =>
      cases l.parameterTexts e.parameters with
      | error d => exact .error d
      | ok before => exact .bind _ fun style => .ok _ _
  | action =>
      cases l.parameterTexts e.parameters with
      | error d => exact .error d
      | ok before =>
          exact .bind _ fun params => .bind _ fun pageParams => .bind _ fun style =>
            .bind _ fun alert => .ok _ _
  | grid => exact .bind _ fun before => .bind _ fun columns => .bind _ fun style => .ok _ _
  | field => exact .bind _ fun params => .bind _ fun validation => .bind _ fun style => .ok _ _

/-- A call ends with a blank. -/
theorem getLast?_callText (e : Element) (arguments : List String) (suffix : String) :
    (e.callText arguments suffix).toList.getLast? = some ' ' := by
  rw [callText, String.toList_append]
  exact List.getLast?_concat

end Element

theorem Portrait.source_settle {e : Element} {r : Except Diagnostic String} (h : e.Calls r)
    (own : List Omission) : (Portrait.settle own r).source = "" ∨
      (Portrait.settle own r).source.toList.getLast? = some ' ' := by
  cases h with
  | ok arguments suffix => exact .inr (e.getLast?_callText arguments suffix)
  | error d => exact .inl rfl

/-- **A node renders as its text, or as nothing or something that ends with a blank.** -/
theorem Node.source_cases (o : RenderOptions) (depth : Nat) (n : Node) :
    n.label.isText = true ∧ (n.portrait o depth).source = n.label.textContent ∨
      n.label.isText = false ∧ ((n.portrait o depth).source = "" ∨
        (n.portrait o depth).source.toList.getLast? = some ' ') := by
  rw [n.portrait_eq, Label.portrait]
  cases n.label.isText with
  | true => exact .inl ⟨rfl, rfl⟩
  | false =>
      refine .inr ⟨rfl, ?_⟩
      cases Element.ofTag? n.label.tag with
      | none => exact .inl rfl
      | some e =>
          simp only [Element.portrait]
          by_cases hdeep : o.maxDepth ≤ depth
          · rw [if_pos hdeep]
            exact .inl rfl
          · rw [if_neg hdeep]
            exact Portrait.source_settle (e.calls_picture ..) _

theorem Node.endsLine_iff (o : RenderOptions) (depth : Nat) (n : Node) :
    (n.portrait o depth).source.toList.getLast? = some '\n' ↔
      n.label.isText = true ∧ n.label.textContent.toList.getLast? = some '\n' := by
  rcases n.source_cases o depth with ⟨htext, hsource⟩ | ⟨htext, hnone | hblank⟩
  · rw [hsource, htext]
    exact (and_iff_right rfl).symm
  · rw [hnone, htext]
    exact iff_of_false (fun h => by cases h) fun h => by cases h.1
  · rw [hblank, htext]
    exact iff_of_false (fun h => by cases h) fun h => by cases h.1

/-- **The source of a page ends with a line end** where the last node is a text that ends with one,
    or renders as nothing after another node. -/
theorem Forest.endsLine_concat (before : Forest) (n : Node) (maxDepth : Nat) :
    (Forest.compile ⟨false, maxDepth⟩ (before ++ [n])).endsLine = true ↔
      n.label.isText = true ∧ n.label.textContent.toList.getLast? = some '\n' ∨
        before ≠ [] ∧ (n.portrait ⟨false, maxDepth⟩ 0).source = "" := by
  have hlast : (Forest.portrait ⟨false, maxDepth⟩ 0 [n]).source =
      (n.portrait ⟨false, maxDepth⟩ 0).source := by
    show String.intercalate "\n" [_] = _
    exact String.intercalate_singleton
  rw [Rendered.endsLine, beq_iff_eq, compile_eq, if_neg Bool.false_ne_true,
    ← n.endsLine_iff ⟨false, maxDepth⟩ 0]
  by_cases hbefore : before = []
  · rw [hbefore, List.nil_append, hlast]
    exact (or_iff_left fun h => h.1 rfl).symm
  · rw [(portrait_append _ 0 before [n]).2 hbefore (List.cons_ne_nil _ _), hlast,
      String.toList_append, String.toList_append, List.getLast?_append]
    by_cases hnone : (n.portrait ⟨false, maxDepth⟩ 0).source = ""
    · rw [hnone]
      exact iff_of_true (by simp) (.inr ⟨hbefore, rfl⟩)
    · have hchars : (n.portrait ⟨false, maxDepth⟩ 0).source.toList ≠ [] := by
        simpa using hnone
      rw [List.getLast?_eq_some_getLast hchars, Option.some_or]
      exact (or_iff_left fun h => hnone h.2).symm

end Pagewright
