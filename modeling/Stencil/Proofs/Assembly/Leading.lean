import Stencil.Dom.Materialize
import Stencil.Proofs.Assembly.Kept
import Stencil.Proofs.Assembly.Tidy

/-!
# The frame that is opened first comes out first

As long as the frame that was opened first is open, all that is put in is within it; once it is
closed, it is the first of the complete pieces, and no other is joined to it.  So the output of
a script that opens an element first begins with that element, whatever the closing tags in it
do.

* `Contents.LedBy` — an element comes first, whether it is still open or complete.
* `Assembly.kept_ledBy` — opening, putting in and closing keep this.
* `Script.output_frame`, `Script.nodes_output_frame` — the first piece of the output, and the
  first node of a fragment.
-/

namespace Stencil

/-! ## What comes first -/

/-- An element comes first: its frame is the outermost one and nothing is complete, or it is the
first complete piece. -/
inductive Contents.LedBy {ω : Type} (tag : String) : Contents ω → Prop
  | opened (inner : List (Frame ω)) (first : Frame ω) (hclosing : first.kind = .ofElement)
      (hname : first.name = tag) : LedBy tag ⟨inner ++ [first], []⟩
  | complete (stack : List (Frame ω)) (later : List (Piece ω))
      (attributes : List OutputAttribute) (children : Option (List (Piece ω))) :
      LedBy tag ⟨stack, later ++ [.element tag attributes children]⟩

theorem Frame.kind_receive {ω : Type} (frame : Frame ω) (piece : Piece ω) :
    (frame.receive piece).kind = frame.kind :=
  congrArg Closing.kind (closing_receive frame piece)

theorem Frame.name_receive {ω : Type} (frame : Frame ω) (piece : Piece ω) :
    (frame.receive piece).name = frame.name :=
  congrArg Closing.name (closing_receive frame piece)

/-- What is pushed behind an entry that nothing can be joined to leaves it where it is. -/
theorem exists_pushJoined_concat {α : Type} {join : α → α → Option α} {first : α}
    (hfirst : ∀ new, join first new = none) (later : List α) (new : α) :
    ∃ more, pushJoined join (later ++ [first]) new = more ++ [first] := by
  cases later with
  | nil => exact ⟨[new], by simp [pushJoined, hfirst]⟩
  | cons last earlier =>
    cases hjoin : join last new with
    | none => exact ⟨new :: last :: earlier, by simp [pushJoined, hjoin]⟩
    | some joined => exact ⟨joined :: earlier, by simp [pushJoined, hjoin]⟩

namespace Contents.LedBy

variable {ω α : Type} {tag : String} {contents : Contents ω}

theorem place (h : contents.LedBy tag) (piece : Piece ω) : (contents.place piece).LedBy tag := by
  cases h with
  | opened inner first hkind hname =>
    cases inner with
    | nil =>
      exact .opened [] (first.receive piece) ((first.kind_receive piece).trans hkind)
        ((first.name_receive piece).trans hname)
    | cons frame rest => exact .opened (frame.receive piece :: rest) first hkind hname
  | complete stack later attributes children =>
    cases stack with
    | cons frame outer => exact .complete (frame.receive piece :: outer) later attributes children
    | nil =>
      have hpushed : ∃ more, pushJoined Piece.join?
          (later ++ [.element tag attributes children]) piece =
            more ++ [.element tag attributes children] :=
        exists_pushJoined_concat (fun _ => rfl) later piece
      obtain ⟨more, hmore⟩ := hpushed
      cases piece with
      | attr _ => exact .complete [] later attributes children
      | _ =>
        show LedBy tag ⟨[], pushJoined Piece.join? _ _⟩
        rw [hmore]
        exact .complete [] more attributes children

theorem pop {encoding : Encoding Widget α} (keeps : encoding.Keeps) {contents : Contents Widget}
    (h : contents.LedBy tag) : (contents.pop encoding).LedBy tag := by
  cases h with
  | opened inner first hkind hname =>
    cases inner with
    | nil =>
      have hpiece : first.piece =
          .element tag first.attributes.reverse (childrenOf first.children.reverse) := by
        rw [Frame.piece, hkind, hname]
      show LedBy tag ((Contents.mk [] []).place (encoding.closed first.piece))
      rw [keeps.closed, hpiece]
      exact .complete [] [] _ _
    | cons frame rest =>
      have hrest : LedBy tag ⟨rest ++ [first], []⟩ := .opened rest first hkind hname
      exact hrest.place (encoding.closed frame.piece)
  | complete stack later attributes children =>
    cases stack with
    | nil => exact .complete [] later attributes children
    | cons frame outer =>
      have houter : LedBy tag ⟨outer, later ++ [.element tag attributes children]⟩ :=
        .complete outer later attributes children
      exact houter.place (encoding.closed frame.piece)

/-- Once nothing is open any more, the element is the first piece. -/
theorem results_eq (h : contents.LedBy tag) (hstack : contents.stack = []) :
    ∃ attributes children rest,
      contents.results.reverse = .element tag attributes children :: rest := by
  cases h with
  | opened inner first _ _ => simp at hstack
  | complete stack later attributes children =>
    exact ⟨attributes, children, later.reverse, by simp⟩

end Contents.LedBy

/-! ## Scripts that open an element first -/

/-- Opening frames, putting in pieces and closing frames leave the first element first. -/
theorem Assembly.kept_ledBy {α : Type} {encoding : Encoding Widget α} (keeps : encoding.Keeps)
    (tag : String) :
    Assembly.Kept encoding (fun _ => True) (fun assembly => assembly.contents.LedBy tag) where
  put := by
    intro assembly piece _ h
    rw [contents_put]
    exact h.place _
  openFrame := by
    intro assembly kind name h
    rw [contents_openFrame]
    generalize assembly.contents = contents at h
    cases h with
    | opened inner first hkind hname => exact .opened (_ :: inner) first hkind hname
    | complete stack later attributes children =>
      exact .complete (_ :: stack) later attributes children
  pop := by
    intro assembly h
    rw [contents_pop_eq]
    exact .pop keeps h
  remember := fun _ _ h => h
  forget := by
    intro assembly request h
    rw [contents_forget]
    exact h
  warn := fun _ _ _ h => h

/-- A script that opens an element first makes that element the first piece. -/
theorem Script.output_frame (tag : String) (body rest : Script) (startId : String)
    {α : Type} {encoding : Encoding Widget α} (keeps : encoding.Keeps) :
    ∃ attributes children more,
      ((Script.run (Assembly.sink encoding) (.frame .ofElement tag body :: rest)
        (.start startId)).closeAll encoding).results.reverse =
          .element tag attributes children :: more := by
  have hkept := Assembly.kept_ledBy keeps tag
  have hopened : ((Assembly.start startId : Assembly Widget).openFrame
      .ofElement tag).2.contents.LedBy tag := by
    rw [Assembly.contents_openFrame]
    exact .opened [] _ rfl rfl
  have hbody := hkept.run body (fun _ _ => trivial) _ hopened
  have hclosed := hkept.closeFrame hbody ((Assembly.start startId : Assembly Widget).openFrame
    .ofElement tag).1
  have hrest := hkept.run rest (fun _ _ => trivial) _ hclosed
  have hall := hkept.closeAll hrest
  obtain ⟨path, htidy⟩ := Script.tidy_run (.frame .ofElement tag body :: rest) _ []
    (Assembly.tidy_start startId)
  have hstack := (htidy.closeAll_closes encoding).stack_eq_nil
  have hempty : ((Script.run (Assembly.sink encoding) (.frame .ofElement tag body :: rest)
      (.start startId)).closeAll encoding).contents.stack = [] := by
    rw [Assembly.contents, hstack]
    rfl
  exact hall.results_eq hempty

/-! ## Fragments -/

mutual
theorem Piece.exists_materialize_concat {first : Dom.Node}
    (hfirst : ∀ new, Dom.Node.join? first new = none) :
    ∀ (piece : Piece (List Dom.Node)) (later : List Dom.Node),
      ∃ more, piece.materialize (later ++ [first]) = more ++ [first]
  | .text s, later => exists_pushJoined_concat hfirst later _
  | .raw s, later => ⟨.markup s :: later, rfl⟩
  | .comment s, later => ⟨.comment s :: later, rfl⟩
  | .element _ _ none, later => ⟨_ :: later, rfl⟩
  | .element _ _ (some _), later => ⟨_ :: later, rfl⟩
  | .attr _, later => ⟨later, rfl⟩
  | .block _ none, later => ⟨later, rfl⟩
  | .block _ (some children), later =>
    Piece.exists_materializeAll_concat hfirst children later
  | .widget nodes, later => by
    rw [Piece.materialize]
    induction nodes generalizing later with
    | nil => exact ⟨later, rfl⟩
    | cons node rest ih =>
      obtain ⟨more, hmore⟩ := exists_pushJoined_concat hfirst later node
      rw [pushAllJoined, List.foldl_cons, hmore]
      exact ih more
/-- A node that nothing is joined to stays the first one. -/
theorem Piece.exists_materializeAll_concat {first : Dom.Node}
    (hfirst : ∀ new, Dom.Node.join? first new = none) :
    ∀ (pieces : List (Piece (List Dom.Node))) (later : List Dom.Node),
      ∃ more, Piece.materializeAll (later ++ [first]) pieces = more ++ [first]
  | [], later => ⟨later, rfl⟩
  | piece :: rest, later => by
    obtain ⟨more, hmore⟩ := Piece.exists_materialize_concat hfirst piece later
    rw [Piece.materializeAll, hmore]
    exact Piece.exists_materializeAll_concat hfirst rest more
end

/-- If the first piece is an element, so is the first node. -/
theorem Dom.ofPieces_element (render : Widget → Logged (List Dom.Node)) (tag : String)
    (attributes : List OutputAttribute) (children : Option (List (Piece Widget)))
    (rest : List (Piece Widget)) :
    ∃ children' more,
      Dom.ofPieces (Piece.fillAll render (.element tag attributes children :: rest)).value =
        .element tag (attributes.map fun a => (a.name, a.value)) children' :: more := by
  have hfilled : ∃ filled, (Piece.fillAll render (.element tag attributes children :: rest)).value =
      .element tag attributes filled :: (Piece.fillAll render rest).value := by
    cases children with
    | none => exact ⟨none, rfl⟩
    | some children => exact ⟨_, rfl⟩
  have hnode : ∀ filled : Option (List (Piece (List Dom.Node))), ∃ children' : List Dom.Node,
      Piece.materialize [] (.element tag attributes filled) =
        [.element tag (attributes.map fun a => (a.name, a.value)) children'] := by
    intro filled
    cases filled with
    | none => exact ⟨[], rfl⟩
    | some filled => exact ⟨_, rfl⟩
  obtain ⟨filled, hfilled⟩ := hfilled
  obtain ⟨children', hnode⟩ := hnode filled
  have hjoin : ∀ new, Dom.Node.join?
      (.element tag (attributes.map fun a => (a.name, a.value)) children') new = none :=
    fun _ => rfl
  obtain ⟨more, hmore⟩ :=
    Piece.exists_materializeAll_concat hjoin (Piece.fillAll render rest).value []
  rw [List.nil_append] at hmore
  refine ⟨children', more.reverse, ?_⟩
  rw [Dom.ofPieces, hfilled, Piece.materializeAll, hnode, hmore, List.reverse_concat]

/-- A script that opens an element first makes that element the first node of a fragment. -/
theorem Script.nodes_output_frame (render : Widget → Logged (List Dom.Node)) (tag : String)
    (body rest : Script) (startId : String) :
    ∃ attributes children more,
      ((Script.run (Assembly.sink (.fragment render)) (.frame .ofElement tag body :: rest)
        (.start startId)).output (.fragment render)).1.nodes =
          .element tag attributes children :: more := by
  obtain ⟨attributes, children, more, hpieces⟩ :=
    Script.output_frame tag body rest startId (Encoding.keeps_fragment render)
  obtain ⟨nodes, others, hnodes⟩ := Dom.ofPieces_element render tag attributes children more
  rw [← hpieces] at hnodes
  exact ⟨_, nodes, others, hnodes⟩

end Stencil
