import Stencil.Proofs.Assembly.Alike

/-!
# Sequences of operations

Output may be made by hand, one operation after the other, in any order and with closes
that fit nothing.  As long as the contents of attributes are text, markup, sections and
partials, it makes no difference but for the result whether a tree or markup is made.

* `Operation.observe` — what can be seen of output in the making on the way.
* `Operation.markup_eq_tree` — markup and a tree are made by the same steps, and the markup
  is that of the tree.
-/

namespace Stencil

variable {ω α : Type}

/-- An operation on output in the making. -/
inductive Operation where
  /-- Open a frame. -/
  | openFrame (kind : FrameKind) (name : String)
  /-- Put in a piece. -/
  | put (piece : Piece Widget)
  /-- Close a frame. -/
  | closeFrame (request : Closing)

/-- What can be seen of output in the making after an operation. -/
structure Observation where
  /-- The request that closes the frame, if the operation opened one. -/
  handle : Option Closing
  depth : Nat
  openAddresses : List String
  log : Log
  deriving DecidableEq, Repr

namespace Operation

/-- Do an operation; the request it returns, if it opens a frame, and the assembly after it. -/
def apply (encoding : Encoding ω α) (assembly : Assembly ω) :
    Operation → Option Closing × Assembly ω
  | .openFrame kind name =>
      let (request, opened) := assembly.openFrame kind name
      (some request, opened)
  | .put piece => (none, assembly.put encoding piece)
  | .closeFrame request => (none, assembly.closeFrame encoding request)

/-- Do operations one after the other; what is seen after each, and the assembly at the end. -/
def observe (encoding : Encoding ω α) :
    List Operation → Assembly ω → List Observation × Assembly ω
  | [], assembly => ([], assembly)
  | operation :: rest, assembly =>
      let (handle, after) := operation.apply encoding assembly
      let (later, last) := observe encoding rest after
      (⟨handle, after.depth, after.openAddresses, after.log⟩ :: later, last)

/-- The assembly after operations were done one after the other. -/
def run (encoding : Encoding ω α) : List Operation → Assembly ω → Assembly ω
  | [], assembly => assembly
  | operation :: rest, assembly => run encoding rest (operation.apply encoding assembly).2

/-- Whether an operation may be done: no piece holds a widget, and within an attribute
there are only text, markup, sections and partials. -/
def isPermitted (inAttribute : Bool) : Operation → Bool
  | .openFrame kind _ => !inAttribute || kind == .ofSection || kind == .ofPartial
  | .put piece => piece.widgetFree && (!inAttribute || piece.isPlain)
  | .closeFrame _ => true

/-- Whether each operation may be done when its turn comes. -/
def allPermitted (encoding : Encoding ω α) : List Operation → Assembly ω → Bool
  | [], _ => true
  | operation :: rest, assembly =>
      operation.isPermitted (Frame.withinAttribute assembly.stack) &&
        allPermitted encoding rest (operation.apply encoding assembly).2

variable {voids : List String} {hole : Widget → String}

/-- An operation that may be done leaves a tree and markup alike, and returns the same. -/
theorem apply_alike {grown : Assembly Widget} {written : Assembly Empty}
    (h : grown.Alike voids hole written) (render : Widget → Logged String)
    (operation : Operation)
    (hpermitted : operation.isPermitted (Frame.withinAttribute grown.stack) = true) :
    (operation.apply .tree grown).1 = (operation.apply (.markup voids render) written).1 ∧
      (operation.apply .tree grown).2.Alike voids hole
        (operation.apply (.markup voids render) written).2 := by
  cases operation with
  | openFrame kind name =>
    have hkind : Frame.withinAttribute grown.stack = true →
        kind = .ofSection ∨ kind = .ofPartial := by
      intro hwithin
      simpa [isPermitted, hwithin] using hpermitted
    obtain ⟨hrequest, hopened⟩ := h.openFrame kind name hkind
    exact ⟨congrArg some hrequest, hopened⟩
  | put piece =>
    rw [isPermitted, Bool.and_eq_true] at hpermitted
    refine ⟨rfl, h.put render piece hpermitted.1 ?_⟩
    intro hwithin
    simpa [hwithin] using hpermitted.2
  | closeFrame request => exact ⟨rfl, h.closeFrame render request⟩

/-- Operations that may be done look the same whether they make a tree or markup. -/
theorem observe_alike {grown : Assembly Widget} {written : Assembly Empty}
    (h : grown.Alike voids hole written) (render : Widget → Logged String)
    (operations : List Operation) (hpermitted : allPermitted .tree operations grown = true) :
    (observe .tree operations grown).1 =
        (observe (.markup voids render) operations written).1 ∧
      (observe .tree operations grown).2.Alike voids hole
        (observe (.markup voids render) operations written).2 := by
  induction operations generalizing grown written with
  | nil => exact ⟨rfl, h⟩
  | cons operation rest ih =>
    rw [allPermitted, Bool.and_eq_true] at hpermitted
    obtain ⟨hhandle, hafter⟩ := apply_alike h render operation hpermitted.1
    obtain ⟨hlater, hlast⟩ := ih hafter hpermitted.2
    refine ⟨?_, hlast⟩
    simp only [observe]
    rw [hhandle, hafter.depth, hafter.openAddresses, hafter.log, hlater]

/-- Whatever is opened, put in and closed from the start, a tree and markup show the same
after every step, and the markup that comes out is that of the tree that comes out. -/
theorem markup_eq_tree (config : Config) (render : Widget → Logged String)
    (hole : Widget → String) (operations : List Operation)
    (hpermitted : allPermitted .tree operations (.start config.startId) = true) :
    (observe (.markup config.voidElements render) operations (.start config.startId)).1 =
        (observe .tree operations (.start config.startId)).1 ∧
      ((observe (.markup config.voidElements render) operations (.start config.startId)).2.output
          (.markup config.voidElements render)).1 =
        Piece.markupAll config.voidElements hole
          ((observe .tree operations (.start config.startId)).2.output .tree).1.pieces ∧
      ((observe (.markup config.voidElements render) operations (.start config.startId)).2.output
          (.markup config.voidElements render)).2.log =
        ((observe .tree operations (.start config.startId)).2.output .tree).2.log := by
  obtain ⟨hobserved, hlast⟩ := observe_alike
    (Assembly.alike_start config.voidElements hole config.startId) render operations hpermitted
  exact ⟨hobserved.symm, hlast.output render⟩

/-- A link whose title is a section, left open and closed by a tag that fits nothing. -/
def crossedOperations : List Operation :=
  [.openFrame .ofElement "a", .openFrame .ofAttribute "title", .openFrame .ofSection "x",
    .put (.text "1<"), .put (.text "2"), .closeFrame ⟨some "0.0", .ofAttribute, "title", false⟩,
    .put (.text "b&"), .put (.raw "<br>"), .put (.comment "c"),
    .closeFrame (.ofTag none "p"), .openFrame .ofElement "br"]

theorem markup_crossedOperations :
    allPermitted .tree crossedOperations (.start "") = true ∧
      ((observe (.markup htmlVoidElements fun _ => pure "") crossedOperations
          (.start "")).2.output (.markup htmlVoidElements fun _ => pure "")).1 =
        "<a title=\"1&lt;2\">b&amp;<br><!--c--></a><p></p><br>" := by
  have hpermitted : allPermitted .tree crossedOperations (.start "") = true := by decide +kernel
  have hsame := markup_eq_tree {} (fun _ => pure "") (fun _ => "") crossedOperations hpermitted
  refine ⟨hpermitted, hsame.2.1.trans ?_⟩
  decide +kernel

end Operation

end Stencil
