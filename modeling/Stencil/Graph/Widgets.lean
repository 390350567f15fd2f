import Stencil.Graph.Basic

/-!
# The widgets of a graph

* `Graph.widgets` — the widgets that stand in the place of children, in document order.
* `Graph.allWidgets` — all widgets, also those in attributes, in elements that other
  widgets have taken, and in partials around those.
-/

namespace Stencil

/-! ## Widgets in the place of children -/

mutual
/-- The widgets that a node is or has among its children. -/
def Node.widgets : Node → List Widget
  | .element ⟨_, _, children, _⟩ => Graph.widgets children
  | .sectionBlock _ children => Graph.widgets children
  | .unlessBlock _ children => Graph.widgets children
  | .partialRef _ fallback => Graph.widgets fallback
  | .widget w => [w]
  | _ => []
/-- The widgets among nodes and their children. -/
def Graph.widgets : List Node → List Widget
  | [] => []
  | node :: rest => node.widgets ++ Graph.widgets rest
end

/-! ## All widgets -/

mutual
/-- All widgets within a node. -/
def Node.allWidgets : Node → List Widget
  | .element el => el.allWidgets
  | .sectionBlock _ children => Graph.allWidgets children
  | .unlessBlock _ children => Graph.allWidgets children
  | .partialRef _ fallback => Graph.allWidgets fallback
  | .widget w => w :: w.innerWidgets
  | _ => []
/-- All widgets within an element. -/
def Element.allWidgets : Element → List Widget
  | ⟨_, attributes, children, _⟩ => Attribute.allWidgets attributes ++ Graph.allWidgets children
/-- All widgets within attributes. -/
def Attribute.allWidgets : List Attribute → List Widget
  | [] => []
  | ⟨_, value⟩ :: rest => value.allWidgets ++ Attribute.allWidgets rest
/-- All widgets within the value of an attribute. -/
def AttributeValue.allWidgets : AttributeValue → List Widget
  | .mixed parts => Graph.allWidgets parts
  | _ => []
/-- All widgets within the element a widget has taken, and in the partials around it. -/
def Widget.innerWidgets : Widget → List Widget
  | ⟨_, _, replaced, partials, _, _⟩ => replaced.allWidgets ++ Binding.allWidgets partials
/-- All widgets within partials. -/
def Binding.allWidgets : List Binding → List Widget
  | [] => []
  | ⟨_, graph, partials⟩ :: rest =>
      Graph.allWidgets graph ++ Binding.allWidgets partials ++ Binding.allWidgets rest
/-- All widgets within nodes. -/
def Graph.allWidgets : List Node → List Widget
  | [] => []
  | node :: rest => node.allWidgets ++ Graph.allWidgets rest
end

end Stencil
