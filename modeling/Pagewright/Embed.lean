import Pagewright.Editor.Drop
import Pagewright.Editor.Outline
import Pagewright.Editor.Starter
import Pagewright.Markup.Render
import Pagewright.Markup.Sample

/-!
# Calls from a host page

The services that a host page calls while it embeds the widget. They take and give texts: pages
come and go as JSON, spots by name. New ids are drawn at random, so each call takes a draw.
-/

namespace Pagewright

namespace Embed

/-- The template source of a page, and the wording of what could not be rendered. -/
def source (page : String) (trim : Bool) : Except LoadError (String × List String) := do
  let nodes ← Forest.load page
  let r := nodes.compile { RenderOptions.standard with trim := trim }
  .ok (r.source, r.diagnostics.map Diagnostic.message)

/-- The outline of a page, on one line. -/
def outline (ids : Draw) (page : String) (selected : Option String) :
    Except LoadError String := do
  let nodes ← Forest.load page
  let named := (Forest.assignIds false nodes ids).1
  .ok (Json.arr (Outline.toItems (Forest.outline selected named))).compact

/-- The name of the spot under the pointer. -/
def dropSpot (pointer : Point) (hovered : Option Box) (tag : String) : String :=
  (Pagewright.dropSpot pointer hovered tag standardMargin).name

/-- A starter as a page; nothing, where there is none of this name. -/
def starter (ids : Draw) (name : String) : Option String :=
  (Starter.ofName? name).map fun t => Forest.save [(t.instantiate ids).1]

/-- The sample of an element as a page; nothing, where the tag is no element's. -/
def sample (ids : Draw) (tag text : String) : Option String :=
  (Element.ofTag? tag).map fun e => Forest.save [(e.sample text ids).1]

/-- A page with ids on all nodes. -/
def assignIds (ids : Draw) (page : String) (force : Bool) : Except LoadError String := do
  let nodes ← Forest.load page
  .ok (Forest.save (Forest.assignIds force nodes ids).1)

end Embed

end Pagewright
