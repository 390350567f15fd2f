import Mathlib.Data.List.Chain
import Stencil.Dom.Materialize
import Stencil.Proofs.Piece.Reading

/-!
# Trim output

Text is never cut up in output: no two texts stand side by side, nor two pieces of markup.
Also no list of children is there and empty, and no attribute is left on its way to an
element.  Pieces of this kind are trim, and so are the nodes of a fragment without texts side
by side.

* `Piece.AreTrim`, `Dom.Node.AreTrim` — the lists of pieces and nodes that are trim, at
  every depth.
* `Trimmed` — a list in the making whose neighbours are apart.
* `Piece.areTrim_ofPieces` — the nodes of trim widgets and any pieces are trim.
-/

namespace Stencil

/-! ## Trim pieces and nodes -/

namespace Piece

variable {ω : Type}

/-- Whether two pieces side by side are one piece cut up: both text, or both markup. -/
def isCut : Piece ω → Piece ω → Bool
  | .text _, .text _ => true
  | .raw _, .raw _ => true
  | _, _ => false

/-- No two neighbours are one piece cut up. -/
def Uncut (pieces : List (Piece ω)) : Prop :=
  pieces.IsChain fun first second => first.isCut second = false

mutual
/-- The piece is no attribute, and where it has children, there are some, uncut and trim. -/
def IsTrim : Piece ω → Prop
  | .attr _ => False
  | .element _ _ (some children) => children ≠ [] ∧ Uncut children ∧ AllTrim children
  | .block _ (some children) => children ≠ [] ∧ Uncut children ∧ AllTrim children
  | _ => True
/-- All pieces are trim. -/
def AllTrim : List (Piece ω) → Prop
  | [] => True
  | piece :: rest => piece.IsTrim ∧ AllTrim rest
end

/-- The pieces are uncut and trim. -/
def AreTrim (pieces : List (Piece ω)) : Prop := Uncut pieces ∧ AllTrim pieces

end Piece

namespace Dom.Node

/-- Whether two nodes side by side are both text. -/
def isCut : Dom.Node → Dom.Node → Bool
  | .text _, .text _ => true
  | _, _ => false

/-- No two neighbours are both text. -/
def Uncut (nodes : List Dom.Node) : Prop :=
  nodes.IsChain fun first second => first.isCut second = false

mutual
/-- The children of the node are uncut and trim. -/
def IsTrim : Dom.Node → Prop
  | .element _ _ children => Uncut children ∧ AllTrim children
  | _ => True
/-- All nodes are trim. -/
def AllTrim : List Dom.Node → Prop
  | [] => True
  | node :: rest => node.IsTrim ∧ AllTrim rest
end

/-- The nodes are uncut and trim. -/
def AreTrim (nodes : List Dom.Node) : Prop := Uncut nodes ∧ AllTrim nodes

theorem allTrim_iff (nodes : List Dom.Node) : AllTrim nodes ↔ ∀ node ∈ nodes, node.IsTrim := by
  induction nodes with
  | nil => simp [AllTrim]
  | cons node rest ih => simp [AllTrim, ih]

end Dom.Node

theorem Piece.allTrim_iff {ω : Type} (pieces : List (Piece ω)) :
    AllTrim pieces ↔ ∀ piece ∈ pieces, piece.IsTrim := by
  induction pieces with
  | nil => simp [AllTrim]
  | cons piece rest ih => simp [AllTrim, ih]

/-! ## Lists in the making -/

section Lists

variable {α : Type} {join : α → α → Option α} {good : α → Prop}

/-- What two entries are joined to is good if both are, and can be joined to an entry in front
of it just if the first of them can. -/
structure JoinsWell (join : α → α → Option α) (good : α → Prop) : Prop where
  apart : ∀ {last new joined}, join last new = some joined →
    ∀ {before}, join before last = none → join before joined = none
  good : ∀ {last new joined}, join last new = some joined → good last → good new → good joined

/-- A list, kept last entry first, whose neighbours cannot be joined and whose entries are
good. -/
structure Trimmed (join : α → α → Option α) (good : α → Prop) (list : List α) : Prop where
  parted : Parted join list
  all : ∀ entry ∈ list, good entry

theorem Parted.tail {last : α} {earlier : List α} (h : Parted join (last :: earlier)) :
    Parted join earlier := by
  cases earlier with
  | nil => trivial
  | cons previous rest => exact h.2

/-- Neighbours are parted if no entry can be joined to the one in front of it. -/
theorem parted_iff_isChain (list : List α) :
    Parted join list ↔ list.reverse.IsChain fun first second => join first second = none := by
  rw [List.isChain_reverse]
  induction list with
  | nil => simp [Parted]
  | cons last earlier ih =>
    cases earlier with
    | nil => simp [Parted]
    | cons previous rest => rw [Parted, ih, List.isChain_cons_cons]

/-- A list in the making is trim just if no entry of the finished list is cut off from the
one in front of it, and all are good. -/
theorem trimmed_iff_reverse {isCut : α → α → Bool}
    (hcut : ∀ first second, isCut first second = false ↔ join first second = none)
    (list : List α) :
    Trimmed join good list ↔
      (list.reverse.IsChain fun first second => isCut first second = false) ∧
        ∀ entry ∈ list.reverse, good entry := by
  simp only [hcut, List.mem_reverse]
  rw [← parted_iff_isChain]
  exact ⟨fun h => ⟨h.parted, h.all⟩, fun h => ⟨h.1, h.2⟩⟩

theorem Trimmed.nil : Trimmed join good [] := ⟨trivial, fun _ hentry => by cases hentry⟩

theorem Trimmed.cons {list : List α} (h : Trimmed join good list) {new : α}
    (hapart : ∀ last, join last new = none) (hnew : good new) :
    Trimmed join good (new :: list) := by
  refine ⟨?_, List.forall_mem_cons.mpr ⟨hnew, h.all⟩⟩
  cases list with
  | nil => trivial
  | cons last earlier => exact ⟨hapart last, h.parted⟩

/-- One more entry leaves a list trim. -/
theorem Trimmed.pushJoined (hjoin : JoinsWell join good) {list : List α}
    (h : Trimmed join good list) {new : α} (hnew : good new) :
    Trimmed join good (pushJoined join list new) := by
  cases list with
  | nil => exact ⟨trivial, by simpa using hnew⟩
  | cons last earlier =>
    obtain ⟨hlast, hearlier⟩ := List.forall_mem_cons.mp h.all
    cases hnext : join last new with
    | none =>
      simp only [Stencil.pushJoined, hnext]
      exact ⟨⟨hnext, h.parted⟩, List.forall_mem_cons.mpr ⟨hnew, h.all⟩⟩
    | some joined =>
      simp only [Stencil.pushJoined, hnext]
      refine ⟨?_, List.forall_mem_cons.mpr ⟨hjoin.good hnext hlast hnew, hearlier⟩⟩
      cases earlier with
      | nil => trivial
      | cons previous rest => exact ⟨hjoin.apart hnext h.parted.1, h.parted.tail⟩

theorem Trimmed.pushAllJoined (hjoin : JoinsWell join good) {list new : List α}
    (h : Trimmed join good list) (hnew : ∀ entry ∈ new, good entry) :
    Trimmed join good (pushAllJoined join list new) := by
  induction new generalizing list with
  | nil => exact h
  | cons entry rest ih =>
    obtain ⟨hentry, hrest⟩ := List.forall_mem_cons.mp hnew
    exact ih (h.pushJoined hjoin hentry) hrest

end Lists

/-! ## Pieces -/

namespace Piece

variable {ω : Type}

theorem isCut_eq_false (first second : Piece ω) :
    first.isCut second = false ↔ join? first second = none := by
  cases first <;> cases second <;> simp [isCut, join?]

theorem joinsWell : JoinsWell (join? (ω := ω)) IsTrim where
  apart := by
    intro last new joined hjoin before hbefore
    cases last <;> cases new <;> simp only [join?, Option.some.injEq, reduceCtorEq] at hjoin <;>
      subst hjoin <;> cases before <;> simp_all [join?]
  good := by
    intro last new joined hjoin _ _
    cases last <;> cases new <;> simp only [join?, Option.some.injEq, reduceCtorEq] at hjoin <;>
      subst hjoin <;> simp [IsTrim]

/-- A list in the making is trim just if the finished list is. -/
theorem trimmed_iff (pieces : List (Piece ω)) :
    Trimmed join? IsTrim pieces ↔ AreTrim pieces.reverse := by
  rw [AreTrim, allTrim_iff]
  exact trimmed_iff_reverse isCut_eq_false _

theorem isTrim_element (tag : String) (attributes : List OutputAttribute)
    {children : List (Piece ω)} (h : AreTrim children) :
    (Piece.element tag attributes (childrenOf children)).IsTrim := by
  cases children with
  | nil => trivial
  | cons first rest => exact ⟨List.cons_ne_nil _ _, h⟩

theorem isTrim_block (kind : BlockKind) {children : List (Piece ω)} (h : AreTrim children) :
    (Piece.block kind (childrenOf children)).IsTrim := by
  cases children with
  | nil => trivial
  | cons first rest => exact ⟨List.cons_ne_nil _ _, h⟩

/-- A frame with trim children becomes a trim piece, or an attribute. -/
theorem isTrim_frame {frame : Frame ω} (h : AreTrim frame.children.reverse) :
    frame.piece.IsTrim ∨ ∃ attr, frame.piece = .attr attr := by
  obtain ⟨kind, name, address, attributes, children, nextIndex⟩ := frame
  cases kind with
  | ofElement => exact .inl (isTrim_element _ _ h)
  | ofAttribute => exact .inr ⟨_, rfl⟩
  | ofSection | ofPartial => exact .inl (isTrim_block _ h)

end Piece

/-! ## Nodes of fragments -/

namespace Dom.Node

theorem isCut_eq_false (first second : Dom.Node) :
    first.isCut second = false ↔ join? first second = none := by
  cases first <;> cases second <;> simp [isCut, join?]

theorem joinsWell : JoinsWell join? IsTrim where
  apart := by
    intro last new joined hjoin before hbefore
    cases last <;> cases new <;> simp only [join?, Option.some.injEq, reduceCtorEq] at hjoin
    subst hjoin
    cases before <;> simp_all [join?]
  good := by
    intro last new joined hjoin _ _
    cases last <;> cases new <;> simp only [join?, Option.some.injEq, reduceCtorEq] at hjoin
    subst hjoin
    trivial

/-- A list in the making is trim just if the finished list is. -/
theorem trimmed_iff (nodes : List Dom.Node) :
    Trimmed join? IsTrim nodes ↔ AreTrim nodes.reverse := by
  rw [AreTrim, allTrim_iff]
  exact trimmed_iff_reverse isCut_eq_false _

end Dom.Node

namespace Piece

mutual
theorem trimmed_materialize :
    ∀ (piece : Piece (List Dom.Node)) (_ : ∀ nodes ∈ piece.widgets, Dom.Node.AreTrim nodes)
      (before : List Dom.Node), Trimmed Dom.Node.join? Dom.Node.IsTrim before →
      Trimmed Dom.Node.join? Dom.Node.IsTrim (piece.materialize before)
  | .text s, _, before, h => h.pushJoined Dom.Node.joinsWell trivial
  | .raw s, _, before, h => h.cons (by simp [Dom.Node.join?]) trivial
  | .comment s, _, before, h => h.cons (by simp [Dom.Node.join?]) trivial
  | .element tag attributes none, _, before, h =>
    h.cons (by simp [Dom.Node.join?]) ⟨.nil, trivial⟩
  | .element tag attributes (some children), hwidgets, before, h => by
    have hchildren := trimmed_materializeAll children hwidgets [] .nil
    exact h.cons (by simp [Dom.Node.join?]) ((Dom.Node.trimmed_iff _).mp hchildren)
  | .attr _, _, _, h | .block _ none, _, _, h => h
  | .block kind (some children), hwidgets, before, h =>
    trimmed_materializeAll children hwidgets before h
  | .widget nodes, hwidgets, before, h => by
    have hnodes := hwidgets nodes (by simp [widgets])
    exact h.pushAllJoined Dom.Node.joinsWell ((Dom.Node.allTrim_iff _).mp hnodes.2)
/-- Trim nodes stay so when the nodes of pieces with trim widgets are put behind them. -/
theorem trimmed_materializeAll :
    ∀ (pieces : List (Piece (List Dom.Node)))
      (_ : ∀ nodes ∈ widgetsAll pieces, Dom.Node.AreTrim nodes)
      (before : List Dom.Node), Trimmed Dom.Node.join? Dom.Node.IsTrim before →
      Trimmed Dom.Node.join? Dom.Node.IsTrim (materializeAll before pieces)
  | [], _, _, h => h
  | piece :: rest, hwidgets, before, h => by
    obtain ⟨hpiece, hrest⟩ := List.forall_mem_append.mp hwidgets
    exact trimmed_materializeAll rest hrest _ (trimmed_materialize piece hpiece before h)
end

/-- The nodes of any pieces are trim if those of the widgets in them are. -/
theorem areTrim_ofPieces (pieces : List (Piece (List Dom.Node)))
    (hwidgets : ∀ nodes ∈ widgetsAll pieces, Dom.Node.AreTrim nodes) :
    Dom.Node.AreTrim (Dom.ofPieces pieces) :=
  (Dom.Node.trimmed_iff _).mp (trimmed_materializeAll pieces hwidgets [] .nil)

end Piece

end Stencil
