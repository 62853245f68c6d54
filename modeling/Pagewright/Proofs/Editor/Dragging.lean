import Pagewright.Proofs.Editor.AllOrNothing

/-!
# Dragging

A drag keeps a gate, which counts time, and a last spot. This file tells a drag by what was seen of
it, the hovers that gave a spot since it began, and says that this is all there is to it.

* `Gesture` -- what was seen of the drag in progress; `Session.story` lists the sessions that
  operations lead through, each with its gesture;
* `Gesture.Opens` -- when a hover gives a spot, told by the last hover that gave one;
* `Drag.Shows` -- **the invariant**: gate and last spot are those of the newest hover that gave a
  spot. `hover_cases` keeps it for a hover, `shows_perform` for every operation: **an operation that
  is not about the drag leaves it alone** (`drag_perform`);
* `Session.gesture_story` -- what this says along every run, with a clock that may go back, drags
  that are replaced before they end, and edits in between.
-/

namespace Pagewright

/-! ## 1. What is seen of a drag -/

/-- The hovers that gave a spot since the drag in progress began, the newest first, each with its
    time; nothing where no drag is in progress. -/
abbrev Gesture := Option (List (Int × Spot))

namespace Gesture

/-- A hover at this time gives a spot: a drag is in progress, and since it began no hover gave one,
    or the last that did lies a window back. A clock that went back shows no time passed. -/
def Opens (window : Nat) (g : Gesture) (now : Int) : Prop :=
  ∃ seen, g = some seen ∧ ∀ last, seen.head? = some last → window ≤ (now - last.1).toNat

/-- Each hover that gave a spot came a window or more after those before it. -/
def Spaced (window : Nat) (g : Gesture) : Prop :=
  ∀ seen, g = some seen →
    seen.Pairwise fun (later earlier : Int × Spot) => earlier.1 + (window : Int) ≤ later.1

theorem not_opens_none (window : Nat) (now : Int) : ¬ Opens window none now := by
  unfold Opens
  simp

theorem opens_some_iff {window : Nat} {seen : List (Int × Spot)} {now : Int} :
    Opens window (some seen) now ↔
      ∀ last, seen.head? = some last → window ≤ (now - last.1).toNat := by
  unfold Opens
  simp

theorem spaced_some_iff {window : Nat} {seen : List (Int × Spot)} :
    Spaced window (some seen) ↔
      seen.Pairwise fun (later earlier : Int × Spot) => earlier.1 + (window : Int) ≤ later.1 := by
  unfold Spaced
  simp

/-- A hover at a time when the gesture opens comes a window or more after those before it. -/
theorem spaced_cons {window : Nat} {seen : List (Int × Spot)} {now : Int} (hwindow : 0 < window)
    (hspaced : Spaced window (some seen)) (hopens : Opens window (some seen) now) (spot : Spot) :
    Spaced window (some ((now, spot) :: seen)) := by
  have hlast := opens_some_iff.mp hopens
  have hseen := spaced_some_iff.mp hspaced
  refine spaced_some_iff.mpr (List.pairwise_cons.mpr ⟨fun pass hpass => ?_, hseen⟩)
  show pass.1 + (window : Int) ≤ now
  cases seen with
  | nil => cases hpass
  | cons newest older =>
      have hnewest : window ≤ (now - newest.1).toNat := hlast newest rfl
      by_cases hfirst : pass = newest
      · rw [hfirst]
        omega
      · -- an older hover came before the newest one, which came before this
        have holder : pass ∈ older := (List.mem_cons.mp hpass).resolve_left hfirst
        have hbefore : pass.1 + (window : Int) ≤ newest.1 :=
          (List.pairwise_cons.mp hseen).1 pass holder
        omega

/-- The spot of the last hover that gave one. -/
def last (g : Gesture) : Option Spot := g.bind fun seen => seen.head?.map Prod.snd

end Gesture

namespace Session

variable {σ : Type}

/-- What is seen of the drag after an operation. -/
def seen (s : Session σ) (g : Gesture) : Operation → Gesture
  | .beginDrag _ => some []
  | .hover now pointer hovered tag =>
      match (s.hover now pointer hovered tag).1 with
      | none => g
      | some spot => g.map ((now, spot) :: ·)
  | .endDrag => none
  | _ => g

/-- The session at first and after each of the operations in turn, and what was seen of its drag. -/
def story [IdSource σ] (s : Session σ) (g : Gesture) :
    List Operation → List (Session σ × Gesture)
  | [] => [(s, g)]
  | op :: ops => (s, g) :: story (s.perform op).2 (s.seen g op) ops

theorem seen_of_not_drags (s : Session σ) (g : Gesture) {op : Operation} (hop : op.drags = false) :
    s.seen g op = g := by
  cases op with
  | beginDrag source => cases hop
  | hover now pointer hovered tag => cases hop
  | endDrag => cases hop
  | _ => rfl

end Session

/-! ## 2. One hover -/

theorem Gate.isActive_eq_false_iff (gate : Gate) (now : Int) :
    gate.isActive now = false ↔
      ∀ started, gate.started = some started → gate.window ≤ (now - started).toNat := by
  rw [Gate.isActive]
  cases gate.started with
  | none => simp
  | some started => simp

/-- A drag whose gate is closed takes no notice of the pointer. -/
theorem Drag.hover_closed {drag : Drag} {now : Int} (h : drag.gate.isActive now = true)
    (pointer : Point) (hovered : Option Box) (tag : String) (margin : Float) :
    drag.hover now pointer hovered tag margin = (none, drag) := by
  have hgate : drag.gate.tryStart now = (false, drag.gate) := if_pos h
  rw [Drag.hover, hgate]
  rfl

/-- A drag whose gate is open takes the spot of the pointer, and the gate begins to wait. -/
theorem Drag.hover_open {drag : Drag} {now : Int} (h : drag.gate.isActive now = false)
    (pointer : Point) (hovered : Option Box) (tag : String) (margin : Float) :
    drag.hover now pointer hovered tag margin =
      (some (dropSpot pointer hovered tag margin),
        { drag with
          gate := { drag.gate with started := some now }
          last := some (dropSpot pointer hovered tag margin) }) := by
  have hgate : drag.gate.tryStart now = (true, { drag.gate with started := some now }) :=
    if_neg (Bool.eq_false_iff.mp h)
  rw [Drag.hover, hgate]
  rfl

/-- The gate and the last spot of a drag are those of the newest hover that gave a spot, and the
    hovers that did lie a window apart. -/
inductive Drag.Shows (window : Nat) : Option Drag → Gesture → Prop where
  | idle : Drag.Shows window none none
  | active {drag : Drag} {seen : List (Int × Spot)} (ofWindow : drag.gate.window = window)
      (started : drag.gate.started = seen.head?.map Prod.fst)
      (last : drag.last = seen.head?.map Prod.snd)
      (spaced : 0 < window → Gesture.Spaced window (some seen)) :
      Drag.Shows window (some drag) (some seen)

namespace Drag

variable {window : Nat} {drag : Drag} {seen : List (Int × Spot)} {now : Int}

/-- **The gate is open exactly when the gesture says so.** -/
theorem Shows.isActive_eq_false_iff (h : Drag.Shows window (some drag) (some seen)) (now : Int) :
    drag.gate.isActive now = false ↔ Gesture.Opens window (some seen) now := by
  cases h with
  | active ofWindow started last spaced =>
      rw [Gate.isActive_eq_false_iff, Gesture.opens_some_iff, started, ofWindow]
      cases seen.head? with
      | none => simp
      | some newest => simp

theorem Shows.spaced {d : Option Drag} {g : Gesture} (h : Drag.Shows window d g)
    (hwindow : 0 < window) : g.Spaced window := by
  cases h with
  | idle =>
      intro seen hseen
      cases hseen
  | active ofWindow started last spaced => exact spaced hwindow

theorem Shows.last_eq {d : Option Drag} {g : Gesture} (h : Drag.Shows window d g) :
    d.bind Drag.last = g.last := by
  cases h with
  | idle => rfl
  | active ofWindow started last spaced => exact last

/-- The drag after a hover that gave a spot. -/
theorem Shows.hovered (h : Drag.Shows window (some drag) (some seen))
    (hopens : Gesture.Opens window (some seen) now) (spot : Spot) :
    Drag.Shows window
      (some { drag with gate := { drag.gate with started := some now }, last := some spot })
      (some ((now, spot) :: seen)) := by
  cases h with
  | active ofWindow started last spaced =>
      exact .active ofWindow rfl rfl fun hwindow =>
        Gesture.spaced_cons hwindow (spaced hwindow) hopens spot

end Drag

namespace Session

variable {σ : Type} {s : Session σ} {g : Gesture} {window : Nat}

/-- **A hover gives a spot exactly when the gesture opens.** It gives the one of the pointer, which
    is then seen; otherwise nothing changes. -/
theorem hover_cases (h : Drag.Shows window s.drag g) (now : Int) (pointer : Point)
    (hovered : Option Box) (tag : String) :
    (¬ g.Opens window now ∧ s.hover now pointer hovered tag = (none, s)) ∨
      ∃ drag spot, g.Opens window now ∧ spot = dropSpot pointer hovered tag s.options.dropMargin ∧
        s.hover now pointer hovered tag = (some spot, { s with drag := some drag }) ∧
        Drag.Shows window (some drag) (g.map ((now, spot) :: ·)) := by
  unfold hover
  cases hdrag : s.drag with
  | none =>
      rw [hdrag] at h
      cases h with
      | idle =>
          exact Or.inl ⟨Gesture.not_opens_none window now, rfl⟩
  | some drag =>
      rw [hdrag] at h
      cases g with
      | none => cases h
      | some seen =>
          have hopens := h.isActive_eq_false_iff now
          by_cases hactive : drag.gate.isActive now = true
          · refine Or.inl ⟨fun hopen => ?_, ?_⟩
            · rw [hopens.mpr hopen] at hactive
              cases hactive
            · simp only [Drag.hover_closed hactive]
              rw [← hdrag]
          · have hclosed := Bool.eq_false_iff.mpr hactive
            have hopen := hopens.mp hclosed
            simp only [Drag.hover_open hclosed]
            exact Or.inr ⟨_, _, hopen, rfl, rfl, h.hovered hopen _⟩

/-! ## 3. One operation -/

/-- What an operation comes to leaves the options, and the drag unless it is about the drag. -/
theorem drag_of_ways {op : Operation} {o : Outcome σ Unit} (h : s.Ways op o) :
    o.2.options = s.options ∧ (op.drags = false → o.2.drag = s.drag) := by
  have hsync : ∀ s' : Session σ, s'.options = s.options → s'.drag = s.drag →
      s'.syncSelection.options = s.options ∧ (op.drags = false → s'.syncSelection.drag = s.drag) :=
    fun s' hoptions hdrag => ⟨s'.keepsTools_syncSelection.options.trans hoptions,
      fun _ => s'.keepsTools_syncSelection.drag.trans hdrag⟩
  cases h with
  | fails e ids => exact ⟨rfl, fun _ => rfl⟩
  | selects asked there => exact ⟨rfl, fun _ => rfl⟩
  | clears asked => exact ⟨rfl, fun _ => rfl⟩
  | drags asked drag =>
      refine ⟨rfl, fun hop => ?_⟩
      rw [asked] at hop
      cases hop
  | edits ids keeps made => exact ⟨rfl, fun _ => rfl⟩
  | cuts e ids made => exact hsync _ rfl rfl
  | rests => exact hsync s rfl rfl
  | back undone => exact hsync _ rfl rfl
  | forth redone => exact hsync _ rfl rfl

variable [IdSource σ]

/-- **An operation that is not about the drag leaves it alone**, whether it fails or not. -/
theorem drag_perform (s : Session σ) (op : Operation) :
    (s.perform op).2.options = s.options ∧
      (op.drags = false → (s.perform op).2.drag = s.drag) := by
  by_cases hremoves : ∃ ids, op = .removeTags ids
  · obtain ⟨ids, rfl⟩ := hremoves
    have htools := keepsTools_removeTags ids s
    exact ⟨htools.options, fun _ => htools.drag⟩
  · exact drag_of_ways (s.perform_ways fun ids e => hremoves ⟨ids, e⟩)

/-- **One operation keeps the gesture beside the drag.** -/
theorem shows_perform (hwindow : s.options.hoverWindow = window)
    (h : Drag.Shows window s.drag g) (op : Operation) :
    Drag.Shows window (s.perform op).2.drag (s.seen g op) := by
  by_cases hop : op.drags = true
  · cases op with
    | beginDrag source =>
        exact .active hwindow rfl rfl fun _ => Gesture.spaced_some_iff.mpr .nil
    | hover now pointer hovered tag =>
        rw [perform, seen]
        rcases hover_cases h now pointer hovered tag with
          ⟨_, hrests⟩ | ⟨drag, spot, _, _, hgives, hshows⟩
        · rw [hrests]
          exact h
        · rw [hgives]
          exact hshows
    | endDrag => exact .idle
    | _ => cases hop
  · have hop' := Bool.eq_false_iff.mpr hop
    rw [(s.drag_perform op).2 hop', s.seen_of_not_drags g hop']
    exact h

/-! ## 4. Runs -/

/-- Along every run the gesture is beside the drag, and the options are those of the opening. -/
theorem shows_story (h : Drag.Shows s.options.hoverWindow s.drag g) (ops : List Operation) :
    ∀ x ∈ s.story g ops, x.1.options = s.options ∧
      Drag.Shows s.options.hoverWindow x.1.drag x.2 := by
  induction ops generalizing s g with
  | nil =>
      rw [story, List.forall_mem_singleton]
      exact ⟨rfl, h⟩
  | cons op ops ih =>
      have hoptions := (s.drag_perform op).1
      have hrest := ih (s := (s.perform op).2) (by rw [hoptions]; exact shows_perform rfl h op)
      rw [hoptions] at hrest
      rw [story, List.forall_mem_cons]
      exact ⟨⟨rfl, h⟩, hrest⟩

/-- **A drag is what was seen of it.** A page is opened, and operations are done in turn, with any
    times of hovers. Then on the way, with the hovers that gave a spot since the drag began,

    * a hover gives a spot exactly when a drag is in progress and no hover gave one since, or the
      last that did lies a window back; it is the spot of the pointer;
    * a hover that gives none changes nothing;
    * where the window is not empty, the hovers that gave a spot came a window or more after each
      other;
    * the end of the drag gives the spot of the last of them, and ends the drag;
    * no other operation has any effect on the drag. -/
theorem gesture_story (page : Forest) (options : EditorOptions) (source : σ)
    (ops : List Operation) :
    ∀ x ∈ (ofPage page options source).story none ops,
      (∀ now pointer hovered tag,
        ((x.1.hover now pointer hovered tag).1.isSome = true ↔
          x.2.Opens options.hoverWindow now) ∧
        (∀ spot, (x.1.hover now pointer hovered tag).1 = some spot →
          spot = dropSpot pointer hovered tag options.dropMargin) ∧
        ((x.1.hover now pointer hovered tag).1 = none →
          (x.1.hover now pointer hovered tag).2 = x.1)) ∧
      (0 < options.hoverWindow → x.2.Spaced options.hoverWindow) ∧
      x.1.endDrag = (x.2.last, { x.1 with drag := none }) ∧
      ∀ op : Operation, op.drags = false →
        (x.1.perform op).2.drag = x.1.drag ∧ x.1.seen x.2 op = x.2 := by
  intro x hx
  obtain ⟨hoptions, hshows⟩ := shows_story (s := ofPage page options source) .idle ops x hx
  have hopened : (ofPage page options source).options = options := rfl
  rw [hopened] at hoptions hshows
  refine ⟨fun now pointer hovered tag => ?_, hshows.spaced, ?_, fun op hop => ⟨?_, ?_⟩⟩
  · rcases hover_cases hshows now pointer hovered tag with
      ⟨hclosed, hrests⟩ | ⟨drag, spot, hopens, hspot, hgives, _⟩
    · rw [hrests]
      exact ⟨⟨fun hsome => (by cases hsome), fun hopens => absurd hopens hclosed⟩,
        fun spot hspot => (by cases hspot), fun _ => rfl⟩
    · rw [hgives]
      refine ⟨⟨fun _ => hopens, fun _ => rfl⟩, fun given hgiven => ?_, fun hnone => ?_⟩
      · obtain rfl := Option.some.inj hgiven
        rw [hspot, hoptions]
      · cases hnone
  · rw [endDrag, hshows.last_eq]
  · exact (x.1.drag_perform op).2 hop
  · exact x.1.seen_of_not_drags x.2 hop

/-- The corner of the screen. -/
def corner : Point := ⟨0.0, 0.0⟩

/-- A tag is dragged and its text is set on the way. The first hover gives a spot; the second comes
    too early, and for the third the clock has gone back; the fourth comes a window after the first.
    Then another drag takes the place of this one. -/
def strokes : List Operation :=
  [.beginDrag (some "note"), .hover 1000 corner none "p", .setText "note" "dragged",
    .hover 1100 corner none "p", .hover 900 corner none "p", .hover 1200 corner none "p",
    .beginDrag none]

/-- What was seen after each of the strokes. Before the other drag begins, a hover within the window
    changes nothing, a later one gives a spot, and so does the end. -/
theorem gesture_strokes :
    let story := (ofPage nested .standard Numbering.fresh).story none strokes
    story.map (fun x => x.2.map fun seen => seen.map Prod.fst) =
        [none, some [], some [1000], some [1000], some [1000], some [1000], some [1200, 1000],
          some []] ∧
      0 < EditorOptions.standard.hoverWindow ∧
      ∃ x ∈ story,
        x.2.Spaced standardWindow ∧ x.1.endDrag.1 = some .after ∧
        (x.1.hover 1300 corner none "p").1 = none ∧ (x.1.hover 1300 corner none "p").2 = x.1 ∧
        (x.1.hover 1400 corner none "p").1 = some .after ∧
        Spot.after = dropSpot corner none "p" EditorOptions.standard.dropMargin ∧
        (Operation.setText "note" "still").drags = false ∧
        (x.1.perform (.setText "note" "still")).2.drag = x.1.drag := by
  have hmem := List.get_mem ((ofPage nested .standard Numbering.fresh).story none strokes)
    ⟨6, by decide⟩
  obtain ⟨hhover, hspaced, hend, hother⟩ :=
    gesture_story nested .standard Numbering.fresh strokes _ hmem
  have hearly : (Session.hover (((ofPage nested .standard Numbering.fresh).story none strokes).get
      ⟨6, by decide⟩).1 1300 corner none "p").1 = none := by decide +kernel
  have hlate : (Session.hover (((ofPage nested .standard Numbering.fresh).story none strokes).get
      ⟨6, by decide⟩).1 1400 corner none "p").1 = some .after := by decide +kernel
  refine ⟨by decide +kernel, by decide, _, hmem, hspaced (by decide), ?_, hearly,
    (hhover 1300 corner none "p").2.2 hearly, hlate, (hhover 1400 corner none "p").2.1 _ hlate,
    rfl, (hother (.setText "note" "still") rfl).1⟩
  rw [hend]
  decide +kernel

end Session

end Pagewright
