import Stencil.Proofs.Script.Orderly
import Stencil.Proofs.Script.Tags

/-!
# What a graph leaves open

Closing tags may close frames that were open before a graph is interpreted, any number of
them and at any point, also from within elements, attributes and iterations.  Still the graph
closes whatever it opens: what is open in the end was open before, and is what was outermost
then.  The frames it closed on the way are remembered until their own closes come, unless one
of its tags was taken for such a close.

* `Assembly.openFrames` — the frames that are open, by their requests.
* `Script.closes_run` — only closing tags make explicit closes.
* `PartialBody.walk_balanced` — what is open after a graph, of what was open before.
-/

namespace Stencil

variable {ω α : Type}

/-- The requests of the open frames, outermost first. -/
def Assembly.openFrames (assembly : Assembly ω) : List Closing :=
  (assembly.stack.map Frame.closing).reverse

/-! ## Closing tags -/

section Closes

variable (encoding : Encoding ω α)

mutual
theorem Directive.closes_run :
    ∀ (step : Directive) (chronicle : Chronicle ω) (close : Close ω)
      (_ : close ∈ (step.run (Chronicle.sink encoding) chronicle).closes),
      close ∈ chronicle.closes ∨ (close.request.explicit = true → close.request ∈ step.tags)
  | .frame kind name body, chronicle, close, hclose => by
    -- The own close of the frame comes last, and all others are those of the body.
    rcases List.mem_cons.mp hclose with rfl | hbody
    · exact .inr fun hexplicit => by cases hexplicit
    · exact Script.closes_run body
        ((Chronicle.sink encoding).openFrame kind name chronicle).2 close hbody
  | .leaf _, _, _, hclose => .inl hclose
  | .closingTag id tag, chronicle, close, hclose => by
    rcases List.mem_cons.mp hclose with rfl | hold
    · exact .inr fun _ => List.mem_singleton_self _
    · exact .inl hold
  | .warning _, _, _, hclose => .inl hclose
/-- The only explicit closes of a run are those of the closing tags of its script. -/
theorem Script.closes_run :
    ∀ (script : Script) (chronicle : Chronicle ω) (close : Close ω)
      (_ : close ∈ (Script.run (Chronicle.sink encoding) script chronicle).closes),
      close ∈ chronicle.closes ∨
        (close.request.explicit = true → close.request ∈ Script.tags script)
  | [], _, _, hclose => .inl hclose
  | step :: rest, chronicle, close, hclose => by
    rcases Script.closes_run rest _ close hclose with hfirst | hrest
    · refine (Directive.closes_run step chronicle close hfirst).imp_right ?_
      exact fun hstep hexplicit => List.mem_append_left _ (hstep hexplicit)
    · exact .inr fun hexplicit => List.mem_append_right _ (hrest hexplicit)
end

end Closes

/-! ## Scripts that start with frames open -/

variable {encoding : Encoding ω α} {assembly : Assembly ω} {path : List Nat}

/-- The chronicle of a script that is run on an assembly. -/
def Assembly.chronicle (encoding : Encoding ω α) (assembly : Assembly ω) (script : Script) :
    Chronicle ω :=
  Script.run (Chronicle.sink encoding) script ⟨assembly, [], []⟩

theorem Chronicle.closings_eq (chronicle : Chronicle ω) :
    chronicle.closings = chronicle.assembly.stack.map Frame.closing := by
  rw [closings, Assembly.shells, List.map_map]
  rfl

/-- After a script, the open frames are the outermost ones of those before. -/
theorem Assembly.Tidy.openFrames_run (h : assembly.Tidy path) (encoding : Encoding ω α)
    (script : Script) :
    (Script.run (Assembly.sink encoding) script assembly).openFrames <+: assembly.openFrames := by
  have horderly := Chronicle.orderly_of_tidy h encoding
  obtain ⟨_, -, ⟨count, hclosings⟩, -⟩ := Script.orderly_run script _ path horderly
  rw [Chronicle.closings_eq, Chronicle.closings_eq, Script.assembly_run] at hclosings
  rw [Assembly.openFrames, Assembly.openFrames, hclosings, List.reverse_prefix]
  exact List.drop_suffix _ _

/-- A frame that was open before a script is open after it, or its own close is still to come,
or a closing tag of the script was taken for that. -/
theorem Assembly.Tidy.awaits_run (h : assembly.Tidy path) (encoding : Encoding ω α)
    (script : Script) {frame : Frame ω} (hframe : frame ∈ assembly.stack) :
    frame.closing ∈ (Script.run (Assembly.sink encoding) script assembly).openFrames ∨
      frame.address ∈ (Script.run (Assembly.sink encoding) script assembly).pending ∨
      ∃ tag ∈ (assembly.chronicle encoding script).closes,
        tag.request ∈ Script.tags script ∧ tag.Takes (some frame.address) := by
  obtain ⟨_, -, ⟨count, hclosings⟩, hawaits⟩ :=
    Script.orderly_run script _ path (Chronicle.orderly_of_tidy h encoding)
  have hopen : frame.address ∈ assembly.shells.map Frame.address :=
    List.mem_map.mpr ⟨frame.shell, List.mem_map_of_mem hframe, rfl⟩
  rcases hawaits frame.address (.inr (.inr hopen)) with hpending | ⟨tag, htag, htakes⟩ | hstill
  · rw [Script.assembly_run] at hpending
    exact .inr (.inl hpending)
  · rcases Script.closes_run encoding script _ tag htag with hold | htags
    · cases hold
    · exact .inr (.inr ⟨tag, htag, htags htakes.1, htakes⟩)
  · -- What is open with this address was open before, and no two frames have one address.
    obtain ⟨request, hrequest, haddress⟩ := Chronicle.mem_addresses.mp hstill
    have hbefore : request ∈ assembly.stack.map Frame.closing := by
      rw [hclosings, Chronicle.closings_eq] at hrequest
      exact List.drop_subset _ _ hrequest
    obtain ⟨other, hother, rfl⟩ := List.mem_map.mp hbefore
    have hnodup : (assembly.stack.map Frame.address).Nodup := by
      have hshells := h.isAt.nodup
      rwa [Assembly.shells, List.map_map] at hshells
    have hsame : other = frame :=
      List.inj_on_of_nodup_map hnodup hother hframe (Option.some.inj haddress)
    rw [Chronicle.closings_eq, Script.assembly_run, hsame] at hrequest
    exact .inl (List.mem_reverse.mpr hrequest)

/-- A script that starts with nothing open leaves nothing open. -/
theorem Assembly.Tidy.stack_run_eq_nil (h : assembly.Tidy path) (encoding : Encoding ω α)
    (script : Script) (hstack : assembly.stack = []) :
    (Script.run (Assembly.sink encoding) script assembly).stack = [] := by
  have hprefix := h.openFrames_run encoding script
  simpa [Assembly.openFrames, hstack] using hprefix

/-! ## Graphs -/

/-- A graph may be interpreted in any scopes, and with any frames open.  It ends in the scopes
it started in.  What is open then is the outermost part of what was open before; of the other
frames, the own closes are still to come, but for those that closing tags of the graph were
taken for.  With nothing open before, nothing is open afterwards, and is left to be closed. -/
theorem PartialBody.walk_balanced (config : Config) (registry : Partials) (body : PartialBody)
    (scopes : Scopes) {startId : String} (hreachable : assembly.Reachable encoding startId) :
    ∃ script,
      body.walk registry config.maxPartialDepth config.maxPartialDepth scopes =
          (script, scopes) ∧
        (Script.run (Assembly.sink encoding) script assembly).openFrames <+:
          assembly.openFrames ∧
        (∀ frame ∈ assembly.stack,
          frame.closing ∈ (Script.run (Assembly.sink encoding) script assembly).openFrames ∨
            frame.address ∈ (Script.run (Assembly.sink encoding) script assembly).pending ∨
            ∃ tag ∈ (assembly.chronicle encoding script).closes,
              body.HasTag registry tag.request ∧ tag.Takes (some frame.address)) ∧
        (assembly.stack = [] →
          (Script.run (Assembly.sink encoding) script assembly).depth = 0 ∧
            (Script.run (Assembly.sink encoding) script assembly).closeAll encoding =
              Script.run (Assembly.sink encoding) script assembly) := by
  obtain ⟨path, htidy⟩ := hreachable.tidy
  refine ⟨_, Prod.ext rfl (body.walk_steady registry _ _ scopes),
    htidy.openFrames_run encoding _, fun frame hframe => ?_, fun hstack => ?_⟩
  · refine (htidy.awaits_run encoding _ hframe).imp_right (.imp_right ?_)
    rintro ⟨tag, htag, hscript, htakes⟩
    exact ⟨tag, htag, body.tags_walk registry _ _ scopes _ hscript, htakes⟩
  · have hnothing := htidy.stack_run_eq_nil encoding
      ((body.walk registry config.maxPartialDepth config.maxPartialDepth scopes).1) hstack
    refine ⟨?_, ?_⟩
    · rw [Assembly.depth, hnothing, List.length_nil]
    · rw [Assembly.closeAll, hnothing, List.foldl_nil]

/-- A list and an item of it, left open. -/
def openList : Assembly Widget :=
  Operation.run .tree
    [.openFrame .ofElement "main", .openFrame .ofElement "ul", .openFrame .ofElement "li"]
    (.start "")

/-- Tags that close the list from within an element of its item, and then the item again. -/
def listTags : Graph :=
  [.element ⟨"b", [], [.closingTag none "UL"], false⟩, .closingTag (some "0.0.0") "li", .text "x"]

/-- The list is closed ahead of its own close, and a tag was taken for that of the item. -/
theorem walk_balanced_listTags :
    openList.Reachable .tree "" ∧
      ∃ script,
        PartialBody.walk [] 64 64 ⟨listTags, []⟩ (.ofData .null) = (script, .ofData .null) ∧
          (Script.run (Assembly.sink .tree) script openList).openFrames =
            [⟨some "0", .ofElement, "main", false⟩] ∧
          (Script.run (Assembly.sink .tree) script openList).pending = ["0.0"] ∧
          ∃ tag ∈ (openList.chronicle .tree script).closes,
            PartialBody.HasTag [] ⟨listTags, []⟩ tag.request ∧ tag.Takes (some "0.0.0") := by
  have hreachable : openList.Reachable .tree "" := .apply (.apply (.apply .start _) _) _
  obtain ⟨script, hwalk, -, hframes, -⟩ :=
    PartialBody.walk_balanced {} [] ⟨listTags, []⟩ (.ofData .null) hreachable
  have hscript : [.frame .ofElement "b" [.closingTag none "UL"],
      .closingTag (some "0.0.0") "li", .leaf (.text "x")] = script := congrArg Prod.fst hwalk
  have hitem := hframes (openList.stack.head (by decide +kernel)) (List.head_mem _)
  have haddress : (openList.stack.head (by decide +kernel)).address = "0.0.0" := by
    decide +kernel
  refine ⟨hreachable, script, hwalk, ?_⟩
  rw [haddress] at hitem
  subst hscript
  refine ⟨by decide +kernel, by decide +kernel, ?_⟩
  rcases hitem with hopen | hpending | htaken
  · exact absurd hopen (by decide +kernel)
  · exact absurd hpending (by decide +kernel)
  · exact htaken

end Stencil
