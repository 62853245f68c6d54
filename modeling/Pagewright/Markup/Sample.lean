import Pagewright.Markup.Element
import Pagewright.Page.Ids

/-!
# Palette samples

What the palette puts on the page for an element: a node of its kind with a new id, and either
the attributes without which it would show nothing, or a literal text inside.
-/

namespace Pagewright

/-- A column of a sample table. -/
def sampleColumn (name title : String) : Json :=
  .obj [("Name", .str name), ("Title", .str title)]

/-- The attributes of a sample, for the elements that have no text inside. -/
def Element.sampleAttributes : Element → Option (List (String × Json))
  | .table =>
      some [("source", .str "keysStr"),
        ("columns", .arr [sampleColumn "id" "KEY_ID", sampleColumn "amount" "MONEY"])]
  | .image => some [("alt", .str "Image"), ("src", .str "/img/dummy.png")]
  | .imageInput =>
      some [("format", .str "jpg"), ("name", .str "sample image"), ("ratio", .str "2/1"),
        ("width", .str "100")]
  | .input => some [("name", .str "sample input")]
  | .radioGroup => some [("name", .str "sample radio")]
  | _ => none

/-- A sample of an element, with this text where it has one inside. -/
def Element.sample {σ : Type} [IdSource σ] (e : Element) (text : String) (s : σ) : Node × σ :=
  let own := IdSource.next s
  let node := (Node.ofTag e.tag).withId own.1
  match e.sampleAttributes with
  | some entries =>
      (entries.foldl (fun n entry => n.withAttribute entry.1 entry.2) node, own.2)
  | none =>
      let inner := IdSource.next own.2
      (node.withChild ((Node.ofText text).withId inner.1), inner.2)

end Pagewright
