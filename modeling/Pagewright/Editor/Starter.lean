import Pagewright.Page.Ids

/-!
# Starters

Four blocks that the palette offers ready-made: a form and a table under a heading, a search form
with its results, and a panel of choices. Every instance is a copy with new ids on all its nodes,
handed out in pre-order.
-/

namespace Pagewright

/-! ## 1. The starters -/

/-- The blocks of the palette. -/
inductive Starter where
  | formWithHeader
  | tableWithHeader
  | searchForm
  | radioPanel
  deriving DecidableEq

namespace Starter

/-- Every starter, in the order of the palette. -/
def all : List Starter := [formWithHeader, tableWithHeader, searchForm, radioPanel]

/-- The name of a starter. -/
def name : Starter → String
  | formWithHeader => "formWithHeader"
  | tableWithHeader => "tableWithHeader"
  | searchForm => "searchForm"
  | radioPanel => "radioPanel"

/-- The starter of a name, where there is one. -/
def ofName? (name : String) : Option Starter := all.find? fun t => t.name = name

/-! ## 2. Parts -/

/-- A tag with attributes that are texts, and children. -/
def block (tag : String) (attributes : List (String × String)) (children : List Node) : Node :=
  let label := attributes.foldl (fun l a => l.putAttribute a.1 (.str a.2)) (Label.ofTag tag)
  ⟨label, if children.isEmpty then none else some children⟩

/-- A literal text. -/
def words (s : String) : Node := .ofText s

/-- A division with a class. -/
def div (classes : String) (children : List Node) : Node :=
  block "div" [("class", classes)] children

/-- A button that runs a contract. -/
def primaryButton (label : String) : Node :=
  block "button" [("class", "btn btn-primary"), ("contract", "ContractName")] [words label]

/-- The heading of a panel. -/
def panelHeading (title : String) : Node := div "panel-heading" [words title]

/-- A row with a label and an input of the same name. -/
def labelledInput (label : String) : Node :=
  div "list-group-item"
    [div "row df f-valign"
      [div "col-md-3 mt-sm text-right" [block "label" [] [words label]],
       div "col-md-9 mc-sm text-left" [block "input" [("name", label), ("type", "text")] []]]]

/-- A column of a table. -/
def column (name title : String) : Json := .obj [("Name", .str name), ("Title", .str title)]

/-! ## 3. The blocks -/

/-- A form under a heading. -/
def formWithHeaderTree : Node :=
  div "panel panel-primary"
    [panelHeading "Money transfer",
     block "form" []
      [labelledInput "Input1", labelledInput "Input2", labelledInput "Input3",
       div "panel-footer text-right" [primaryButton "Send"]]]

/-- A table under a heading. -/
def tableWithHeaderTree : Node :=
  div "panel panel-primary"
    [panelHeading "Table block",
     block "table" [("source", "test_key")] [],
     div "panel-footer text-right" [primaryButton "More"]]

/-- The parameters that the search button hands to its page. -/
def searchParameters : Json :=
  .obj
    [("isSearch", .obj [("text", .str "1"), ("type", .str "text")]),
     ("v_Search", .obj [("params", .arr [.str "Search"]), ("type", .str "Val")])]

/-- The button of the search form. -/
def searchButton : Node :=
  ((block "button" [("class", "btn btn-default"), ("page", "roles_list")] []).withAttribute
      "pageparams" searchParameters).withChild
    (block "em" [("class", "fa fa-search")] [])

/-- The row of the search form in which one types. -/
def searchRow : Node :=
  div "list-group-item"
    [div "row df f-valign"
      [div "col-md-1 mt-sm text-right"
        [block "label" [("for", "Search")] [block "span" [] [words "name"]]],
       div "col-md-11 mc-sm"
        [div "input-group"
          [block "input"
            [("class", "form-control"), ("name", "Search"), ("type", "text"),
             ("value", "#v_Search#")] [],
           div "input-group-btn" [searchButton]]]]]

/-- The columns of the results. -/
def resultColumns : Json :=
  .arr
    [column "custom_id" "$id$", column "custom_name" "$name$", column "custom_type" "$type$",
     column "custom_date" "$created$ / $deleted$", column "custom_status" "$status$",
     column "custom_creator" "$creator$", column "actions" "$actions$"]

/-- A search form with its results. -/
def searchFormTree : Node :=
  div "panel panel-primary"
    [block "form" []
      [searchRow,
       div "list-group-item"
        [((Node.ofTag "table").withAttribute "columns" resultColumns).withAttribute "source"
          (.str "src_roles_list")],
       div "panel-footer clearfix"
        [div "pull-right"
          [block "button" [("class", "btn btn-primary"), ("page", "roles_create")]
            [words "create"]]]]]

/-- The button that leaves the panel of choices, after asking. -/
def cancelButton : Node :=
  (((((Node.ofTag "button").withAttribute "alert"
      (.obj [("text", .str "Select the payment method")])).withAttribute "class"
      (.str "btn btn-default mr-lg")).withAttribute "contract" (.str "ContractName"))).withChild
    (words "Cancel")

/-- A panel of choices. -/
def radioPanelTree : Node :=
  block "form" [("class", "panel panel-primary")]
    [div "panel-heading" [div "panel-title" [words "Payment"]],
     div "panel-body"
      [div "form-group"
        [block "label" [] [words "Payment methods"],
         block "radiogroup"
          [("name", "Payments"), ("namecolumn", "type"), ("source", "payment"),
           ("value", "#value_payment_method#"), ("valuecolumn", "id")] []]],
     div "panel-footer text-center"
      [cancelButton,
       block "button"
        [("class", "btn btn-primary"), ("contract", "ContractName"), ("page", "proof_payment")]
        [words "Payment"]]]

/-- The block of a starter, without ids. -/
def tree : Starter → Node
  | formWithHeader => formWithHeaderTree
  | tableWithHeader => tableWithHeaderTree
  | searchForm => searchFormTree
  | radioPanel => radioPanelTree

/-- A copy of the block with new ids. -/
def instantiate {σ : Type} [IdSource σ] (t : Starter) (s : σ) : Node × σ :=
  t.tree.assignIds true s

end Starter

/-- The name is no starter's. -/
def unknownStarter (name : String) : String := "Unknown template: " ++ name

end Pagewright
