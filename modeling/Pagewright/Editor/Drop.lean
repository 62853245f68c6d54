import Pagewright.Markup.Element

/-!
# Dropping tags

While a tag is dragged, the place of the pointer within the box of the tag under it decides where
the dragged tag would go (`dropSpot`): before it, after it, or inside. The edges of the box are
bands of a quarter of its size, up to a greatest margin.

* The top and the left band mean before, the bottom and the right band after.
* The middle means inside where the tag takes children, and otherwise after. So does a tag that
  has no box.

The spot is worked out at most once in a window of time (`Gate`). A drag (`Drag`) remembers what
is dragged and the last spot.
-/

namespace Pagewright

/-! ## 1. Spots -/

/-- Where a tag goes, relative to another. -/
inductive Spot where
  | before
  | after
  | inside
  deriving DecidableEq

/-- The name of a spot. -/
def Spot.name : Spot → String
  | .before => "before"
  | .after => "after"
  | .inside => "inside"

/-- The names of all spots. -/
def spotNames : List String := ["before", "after", "inside"]

/-- The spot of a name. -/
def Spot.ofName? : String → Option Spot
  | "before" => some .before
  | "after" => some .after
  | "inside" => some .inside
  | _ => none

/-- A point on the screen. -/
structure Point where
  x : Float
  y : Float

/-- The box of a tag on the screen. -/
structure Box where
  left : Float
  top : Float
  width : Float
  height : Float

/-- The widest margin, in pixels. -/
def standardMargin : Float := 15.0

/-- The smaller of two numbers; where one is no number, the other. -/
def smaller (a b : Float) : Float :=
  if a.isNaN then b
  else if b.isNaN then a
  else if a < b then a
  else b

/-- Where a tag dropped at the pointer goes, relative to the tag with this box. -/
def dropSpot (pointer : Point) (hovered : Option Box) (tag : String) (margin : Float) : Spot :=
  match hovered with
  | none => .after
  | some box =>
      let marginX := smaller (box.width / 4.0) margin
      let marginY := smaller (box.height / 4.0) margin
      let x := pointer.x - box.left
      let y := pointer.y - box.top
      if y < marginY || x < marginX then .before
      else if y > box.height - marginY || x > box.width - marginX then .after
      else if acceptsChildren tag then .inside
      else .after

/-! ## 2. The gate -/

/-- Lets one event pass in each window of time. Times are in milliseconds; the clock may go back. -/
structure Gate where
  window : Nat
  started : Option Int

/-- The standard window, in milliseconds. -/
def standardWindow : Nat := 200

namespace Gate

/-- A gate that nothing has passed. -/
def ofWindow (window : Nat) : Gate := ⟨window, none⟩

/-- Whether the window of the last event is still running. -/
def isActive (g : Gate) (now : Int) : Bool :=
  match g.started with
  | none => false
  | some started => (now - started).toNat < g.window

/-- Lets an event pass and opens its window, unless another is still running. -/
def tryStart (g : Gate) (now : Int) : Bool × Gate :=
  if g.isActive now then (false, g) else (true, { g with started := some now })

/-- As if nothing had passed. -/
def reset (g : Gate) : Gate := { g with started := none }

end Gate

/-! ## 3. Drags -/

/-- A drag: the id of the tag that is moved, unless it comes from the palette, the gate of its
    hovers, and the last spot. -/
structure Drag where
  source : Option String
  gate : Gate
  last : Option Spot

namespace Drag

/-- A drag that has not hovered yet. -/
def begin (source : Option String) (window : Nat) : Drag := ⟨source, .ofWindow window, none⟩

/-- The pointer moves: the new spot, unless the gate is closed. -/
def hover (d : Drag) (now : Int) (pointer : Point) (hovered : Option Box) (tag : String)
    (margin : Float) : Option Spot × Drag :=
  let (passed, gate) := d.gate.tryStart now
  if passed then
    let spot := dropSpot pointer hovered tag margin
    (some spot, { d with gate := gate, last := some spot })
  else (none, d)

end Drag

end Pagewright
