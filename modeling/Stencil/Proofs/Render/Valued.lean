import Stencil.Host.Render
import Stencil.Proofs.Assembly.Kept
import Stencil.Proofs.Piece.Textual
import Stencil.Proofs.Render.Direct
import Stencil.Proofs.Script.Placed
import Stencil.Proofs.Script.TagFree

/-!
# Attribute values in the three outputs

The parts of an attribute value are put into the frame of the attribute, and its value is the
text of what is in the frame in the end.  With trees and fragments these are the pieces that the
parts show, and so the value is their text.  Markup writes elements and comments as soon as they
are complete, and so the value has their tags in it.

* `Script.Gives` — a script gives an attribute to the element that it is run within.
* `Attribute.gives_mixed` — the attributes that a value made of parts gives, and when they are
  the same in all three outputs.
* `Host.title_captionedTitle` — an element and a comment within a title.
-/

namespace Stencil

/-! ## Scripts of values -/

/-- Whether a node is neither a closing tag nor a widget. -/
def Node.isContent : Node → Bool
  | .closingTag _ _ | .widget _ => false
  | _ => true

/-- There is no closing tag in the script, and it puts in text, markup and comments only. -/
structure Script.IsContent (script : Script) : Prop where
  tags : Script.tagFree script = true
  leaves : ∀ piece ∈ Script.leaves script, piece.isLeaf = true

namespace Script.IsContent

theorem leaf {piece : Piece Widget} (h : piece.isLeaf = true) : IsContent [.leaf piece] where
  tags := rfl
  leaves := by
    intro other hother
    rw [List.mem_singleton.mp hother]
    exact h

/-- Scripts are such if they are made of such parts. -/
theorem compositional : Script.Compositional Node.isContent IsContent where
  nil := ⟨rfl, fun _ hmem => absurd hmem List.not_mem_nil⟩
  append := by
    intro first second hfirst hsecond
    refine ⟨by rw [tagFree_append, hfirst.tags, hsecond.tags, Bool.and_self], ?_⟩
    intro piece hpiece
    rw [leaves_append, List.mem_append] at hpiece
    rcases hpiece with h | h
    · exact hfirst.leaves piece h
    · exact hsecond.leaves piece h
  frame := by
    intro kind name body hbody
    refine ⟨by rw [tagFree, Directive.tagFree, hbody.tags, tagFree, Bool.and_self], ?_⟩
    intro piece hpiece
    rw [Script.leaves, Directive.leaves, Script.leaves, List.append_nil] at hpiece
    exact hbody.leaves piece hpiece
  warning := fun _ => ⟨rfl, fun _ hmem => absurd hmem List.not_mem_nil⟩
  text := fun _ => leaf rfl
  comment := fun _ => leaf rfl
  triple := fun _ _ _ => leaf rfl
  closingTag := fun _ _ htest => by cases htest
  widget := fun _ htest => by cases htest

end Script.IsContent

/-- Text and markup are put in as they are, and comments with what is around their text. -/
theorem Piece.ReadAlike.leaf (voids : List String) (render : Widget → Logged String)
    (piece : Piece Widget) (hleaf : piece.isLeaf = true) :
    ReadAlike [piece] [((Encoding.markup voids render).leaf piece).value] := by
  cases piece with
  | text s => exact ⟨iff_of_false (by simp [children, attribute?]) (List.cons_ne_nil _ _),
      fun _ => rfl, fun h => by cases h⟩
  | raw s => exact ⟨iff_of_false (by simp [children, attribute?]) (List.cons_ne_nil _ _),
      fun _ => rfl, fun h => by cases h⟩
  | comment s =>
    refine ⟨iff_of_false (by simp [children, attribute?]) (List.cons_ne_nil _ _),
      (fun h => by cases h), fun _ => ?_⟩
    have hwritten : textContents [((Encoding.markup voids render).leaf (.comment s)).value] =
        commentMarkup s := String.append_empty
    have hopening : 0 < "<!--".length := by decide
    rw [hwritten, commentMarkup, String.length_append, String.length_append]
    exact Nat.lt_of_lt_of_le hopening (by omega)
  | _ => cases hleaf

section Values

variable {voids : List String} (render : Widget → Logged String)

mutual
theorem Directive.readAlike :
    ∀ (step : Directive) (_ : step.tagFree = true)
      (_ : ∀ piece ∈ step.leaves, piece.isLeaf = true),
      Piece.ReadAlike step.pieces (step.encoded (.markup voids render))
  | .frame kind name body, htags, hleaves =>
    (Script.readAlike body htags hleaves).frame voids kind name
  | .leaf piece, _, hleaves => .leaf voids render piece (hleaves piece (List.mem_singleton.mpr rfl))
  | .closingTag _ _, htags, _ => by cases htags
  | .warning _, _, _ => .nothing
/-- The pieces that a script puts into a tree and into markup are read alike. -/
theorem Script.readAlike :
    ∀ (script : Script) (_ : Script.tagFree script = true)
      (_ : ∀ piece ∈ Script.leaves script, piece.isLeaf = true),
      Piece.ReadAlike (Script.pieces script) (Script.encoded (.markup voids render) script)
  | [], _, _ => .nothing
  | step :: rest, htags, hleaves => by
    rw [Script.tagFree, Bool.and_eq_true] at htags
    rw [Script.leaves] at hleaves
    have hstep := Directive.readAlike step htags.1 fun piece hpiece =>
      hleaves piece (List.mem_append_left _ hpiece)
    have hrest := Script.readAlike rest htags.2 fun piece hpiece =>
      hleaves piece (List.mem_append_right _ hpiece)
    exact hstep.append hrest
end

end Values

mutual
theorem Directive.areTextual_of_isValue :
    ∀ (step : Directive) (_ : step.isValue = true), Piece.areTextual step.pieces = true
  | .frame kind name body, hvalue => by
    rw [Directive.isValue, Bool.and_eq_true] at hvalue
    have hbody := Script.areTextual_of_isValue body hvalue.2
    have hblock : ∀ blockKind, Piece.areTextual
        [.block blockKind (childrenOf (Piece.joined (Script.pieces body)))] = true := by
      intro blockKind
      rw [Piece.areTextual, Piece.isTextual_block, Piece.areTextual_joined, hbody]
      rfl
    cases kind with
    | ofSection => exact hblock .ofSection
    | ofPartial => exact hblock (.ofPartial name)
    | ofElement => cases hvalue.1
    | ofAttribute => cases hvalue.1
  | .leaf (.text _), _ | .leaf (.raw _), _ | .warning _, _ => rfl
/-- Parts of attribute values put in nothing but text and markup. -/
theorem Script.areTextual_of_isValue :
    ∀ (script : Script) (_ : Script.isValue script = true),
      Piece.areTextual (Script.pieces script) = true
  | [], _ => rfl
  | step :: rest, hvalue => by
    rw [Script.isValue, Bool.and_eq_true] at hvalue
    rw [Script.pieces, Piece.areTextual_append, Directive.areTextual_of_isValue step hvalue.1,
      Script.areTextual_of_isValue rest hvalue.2, Bool.and_self]
end

/-! ## Values of attributes -/

/-- Run on an assembly in good order whose innermost frame is an element, the script gives the
element an attribute, behind those that it has, and changes nothing else of what is held. -/
def Script.Gives {ω α : Type} (encoding : Encoding ω α) (script : Script)
    (attr : OutputAttribute) : Prop :=
  ∀ (assembly : Assembly ω) (path : List Nat) (frame : Frame ω) (outer : List (Frame ω)),
    assembly.Tidy path → assembly.contents.stack = frame :: outer → frame.kind = .ofElement →
      (Script.run (Assembly.sink encoding) script assembly).contents =
        ⟨{ frame with attributes := attr :: frame.attributes } :: outer,
          assembly.contents.results⟩

/-- The frame of an attribute gives the value that is read off its contents. -/
theorem Script.gives_frame {ω α : Type} {encoding : Encoding ω α}
    (hattr : ∀ attr, encoding.closed (.attr attr) = .attr attr) (name : String) {body : Script}
    (htags : Script.tagFree body = true) :
    Script.Gives encoding [.frame .ofAttribute name body]
      ⟨name, Frame.attributeValue (Piece.joined (Script.encoded encoding body))⟩ := by
  intro assembly path frame outer htidy hstack hkind
  have hfree : Script.tagFree [.frame .ofAttribute name body] = true := by
    rw [tagFree, Directive.tagFree, htags]
    rfl
  obtain ⟨-, hcontents⟩ := Script.contents_run_encoded encoding _ hfree assembly path htidy
  rw [hcontents, encoded, Directive.encoded, Piece.ofFrame, hattr]
  simp only [encoded, List.append_nil, Contents.placeAll, List.foldl_cons, List.foldl_nil,
    Contents.place, hstack, Frame.receive, if_pos hkind]

/-- What is read off the pieces of a body as the value of an attribute is the text of what the
body shows. -/
theorem PartialBody.attributeValue_steps (registry : Partials) (limit left : Nat)
    (body : PartialBody) (scopes : Scopes) :
    Frame.attributeValue
        (Piece.joined (Script.pieces ((PartialBody.walk registry limit left body).steps scopes))) =
      Piece.valueOf (PartialBody.direct registry left body scopes) := by
  have hsettled := PartialBody.direct_settled registry left body scopes
  rw [PartialBody.pieces_steps, hsettled.joined_eq, Frame.attributeValue_merged]

/-- Nothing but text is shown by what may stand in values. -/
theorem PartialBody.areTextual_direct (registry : Partials) (limit left : Nat)
    {body : PartialBody} (hvalue : body.IsValue registry) (scopes : Scopes) :
    Piece.areTextual (PartialBody.direct registry left body scopes) = true := by
  have hwalk : (PartialBody.walk registry limit left body).IsValue :=
    (@PartialBody.walk_places [] registry limit left body).1 hvalue
  rw [← PartialBody.pieces_steps registry limit left body scopes]
  exact Script.areTextual_of_isValue _ (hwalk scopes)

/-- Trees and fragments give an attribute the text of what its parts show, and markup gives it a
value if and only if they do.  The values are the same just if no element and no comment is
shown outside of attributes, and so they are if the parts may stand in values. -/
theorem Attribute.gives_mixed (registry partials : Partials) (limit left : Nat) (parts : Graph)
    (name : String) (scopes : Scopes) (voids : List String) (render : Widget → Logged String)
    (nodes : Widget → Logged (List Dom.Node))
    (hparts : ∀ reached, (PartialBody.mk parts partials).Reaches registry reached →
      Graph.every Node.isContent Node.isContent reached.graph = true) :
    let script := (Attribute.walk (.ofPartials registry limit left partials)
      ⟨name, .mixed parts⟩).steps scopes
    let shown := PartialBody.direct registry left ⟨parts, partials⟩ scopes
    Script.Gives .tree script ⟨name, Piece.valueOf shown⟩ ∧
      Script.Gives (.fragment nodes) script ⟨name, Piece.valueOf shown⟩ ∧
      ∃ written, Script.Gives (.markup voids render) script ⟨name, written⟩ ∧
        (written = none ↔ Piece.valueOf shown = none) ∧
        (written = Piece.valueOf shown ↔ Piece.areTextual shown = true) ∧
        ((PartialBody.mk parts partials).IsValue registry → written = Piece.valueOf shown) := by
  intro script shown
  let body := (PartialBody.walk registry limit left ⟨parts, partials⟩).steps scopes
  have hscript : script = [.frame .ofAttribute name body] := by
    simp only [body, PartialBody.walk_eq_ofPartials]
    rfl
  have hcontent : Script.IsContent body :=
    Script.IsContent.compositional.steps_walk registry limit left _ hparts scopes
  have hvalue : Frame.attributeValue (Piece.joined (Script.pieces body)) = Piece.valueOf shown :=
    PartialBody.attributeValue_steps registry limit left _ scopes
  have hkeeps : ∀ {α : Type} {encoding : Encoding Widget α}, encoding.Keeps →
      Script.Gives encoding script ⟨name, Piece.valueOf shown⟩ := by
    intro α encoding keeps
    have hgives := Script.gives_frame (fun attr => keeps.closed (.attr attr)) name hcontent.tags
    rw [Script.encoded_of_keeps keeps, hvalue, ← hscript] at hgives
    exact hgives
  have hmarkup : Script.Gives (.markup voids render) script
      ⟨name, Frame.attributeValue (Piece.joined (Script.encoded (.markup voids render) body))⟩ := by
    rw [hscript]
    exact Script.gives_frame (fun _ => rfl) name hcontent.tags
  have hread : Piece.ReadAlike (Script.pieces body)
      (Script.encoded (.markup voids render) body) :=
    Script.readAlike render body hcontent.tags hcontent.leaves
  obtain ⟨hnone, hsame⟩ := hread.attributeValue
  rw [hvalue] at hnone hsame
  rw [PartialBody.pieces_steps] at hsame
  exact ⟨hkeeps Encoding.keeps_tree, hkeeps (Encoding.keeps_fragment nodes), _, hmarkup, hnone,
    hsame, fun hisValue =>
      hsame.mpr (PartialBody.areTextual_direct registry limit left hisValue scopes)⟩

/-- A partial with an inverted section in it. -/
def hueBinding : Binding :=
  ⟨"hue", [.unlessBlock ⟨"plain"⟩ [.text "\"", .reference ⟨"hue"⟩, .triple ⟨"hue"⟩]], []⟩

theorem Attribute.gives_mixed_hue :
    ∃ written,
      Script.Gives (.markup htmlVoidElements fun _ => pure "")
        ((Attribute.walk (.ofPartials [] 4 1 [hueBinding])
          ⟨"title", .mixed [.text "a<", .partialRef "hue" []]⟩).steps
            (.ofData (.object [("hue", .string "k&")])))
        ⟨"title", written⟩ ∧
      written = some "a<\"k&k&" := by
  have hreached : ∀ test : Node → Bool,
      Graph.every test test [.text "a<", .partialRef "hue" []] = true →
      Binding.everyAll test test [hueBinding] = true → ∀ reached : PartialBody,
        (PartialBody.mk [.text "a<", .partialRef "hue" []] [hueBinding]).Reaches [] reached →
        Graph.every test test reached.graph = true :=
    fun test hparts hpartials reached hreached => (hreached.every hparts hpartials rfl).1
  obtain ⟨-, -, written, hgives, -, -, hsame⟩ :=
    Attribute.gives_mixed [] [hueBinding] 4 1 [.text "a<", .partialRef "hue" []] "title"
      (.ofData (.object [("hue", .string "k&")])) htmlVoidElements (fun _ => pure "")
      (fun _ => pure []) (hreached _ (by decide +kernel) (by decide +kernel))
  have hvalue := hsame (hreached _ (by decide +kernel) (by decide +kernel))
  exact ⟨written, hgives, hvalue.trans (by decide +kernel)⟩

namespace Host

/-- An element and a comment within a title. -/
def captionedTitle : Template :=
  .ofGraph
    [.element ⟨"i",
      [⟨"title", .mixed [.element ⟨"b", [], [.text "x"], false⟩, .comment "y"]⟩], [], false⟩]
    [] .injected {}

/-- The title is the text of the element in the tree and in the fragment, and has the tags and
the comment in the markup. -/
theorem title_captionedTitle :
    Graph.every Node.isContent Node.isContent captionedTitle.graph = true ∧
      (empty.tree captionedTitle .null).value =
        .single (.element "i" [⟨"title", some "x"⟩] none) ∧
      (empty.fragment captionedTitle .null).value.htmlWith htmlVoidElements =
        "<i title=\"x\"></i>" ∧
      (empty.html captionedTitle .null).value =
        "<i title=\"&lt;b&gt;x&lt;/b&gt;&lt;!--y--&gt;\"></i>" := by
  refine ⟨by decide +kernel, rfl, ?_, ?_⟩
  · decide +kernel
  · decide +kernel

end Host

end Stencil
