import Stencil.Proofs.Assembly.Tidy

/-!
# Indices and addresses

Whatever is done from the start on, what begins within a frame, or at top level, is numbered
in the order in which it begins, and no two frames ever have the same address.  Frames that
were closed long ago count, and so do the empty paragraphs of stray closes.

* `Operation.history` — all that operations begin, with the indices that are claimed.
* `Operation.Recorded` — a history that an assembly agrees with; each operation extends it.
* `Operation.recorded_run` — the history of a run, and the assembly it leads to, agree.
* `Operation.history_numbered` — addresses are distinct, indices count, and closes are
  pending only for frames that were opened before and are not open.
-/

namespace Stencil

variable {ω α : Type}

/-! ## What begins -/

/-- A frame or a piece that began. -/
structure Beginning where
  /-- The address of the frame it began in; `none` at top level. -/
  parent : Option String
  /-- The index that it claimed. -/
  index : Nat
  /-- The address of a frame; `none` for a piece. -/
  address : Option String
  deriving DecidableEq, Repr

namespace Beginning

/-- The addresses of the frames that began. -/
def addresses (history : List Beginning) : List String := history.filterMap Beginning.address

/-- How much began directly within a frame, or at top level. -/
def countIn (parent : Option String) (history : List Beginning) : Nat :=
  history.countP (·.parent == parent)

/-- The address that a frame gets by what it begins in and the index that it claims. -/
def spelled (startId : String) (parent : Option String) (index : Nat) : String :=
  match parent with
  | some address => address ++ "." ++ toString index
  | none => startId ++ toString index

/-- Each beginning claims as its index how much began before it in the same place. -/
def Counting (history : List Beginning) : Prop :=
  ∀ before beginning after, history = before ++ beginning :: after →
    beginning.index = countIn beginning.parent before

/-- Each frame has the address that spells out its place and its index. -/
def Spelling (startId : String) (history : List Beginning) : Prop :=
  ∀ beginning ∈ history, ∀ address, beginning.address = some address →
    address = spelled startId beginning.parent beginning.index

variable {history : List Beginning} {beginning : Beginning}

theorem countIn_concat (parent : Option String) (history : List Beginning)
    (beginning : Beginning) :
    countIn parent (history ++ [beginning]) =
      countIn parent history + if beginning.parent = parent then 1 else 0 := by
  simp [countIn, List.countP_append, List.countP_singleton]

theorem addresses_concat (history : List Beginning) (beginning : Beginning) :
    addresses (history ++ [beginning]) = addresses history ++ beginning.address.toList := by
  cases haddress : beginning.address <;> simp [addresses, haddress]

theorem mem_addresses {address : String} :
    address ∈ addresses history ↔ ∃ beginning ∈ history, beginning.address = some address :=
  List.mem_filterMap

theorem Counting.concat (h : Counting history)
    (hindex : beginning.index = countIn beginning.parent history) :
    Counting (history ++ [beginning]) := by
  intro before other after heq
  rcases List.eq_nil_or_concat after with rfl | ⟨rest, last, rfl⟩
  · obtain ⟨rfl, hlast⟩ := List.append_inj' heq rfl
    cases hlast
    exact hindex
  · have hsplit : history ++ [beginning] = (before ++ other :: rest) ++ [last] := by
      simpa using heq
    exact h before other rest (List.append_inj' hsplit rfl).1

end Beginning

namespace Assembly

/-- What begins next, with its address if it is a frame. -/
def nextBeginning (assembly : Assembly ω) (address : Option String) : Beginning where
  parent := assembly.shells.head?.map Frame.address
  index := Frame.upcoming assembly.nextIndex assembly.shells
  address := address

variable {assembly : Assembly ω} {path : List Nat}

theorem nextAddress_spelled (assembly : Assembly ω) (address : Option String) :
    assembly.nextAddress =
      Beginning.spelled assembly.startId (assembly.nextBeginning address).parent
        (assembly.nextBeginning address).index := by
  rw [nextAddress_eq, nextBeginning]
  cases assembly.shells <;> rfl

/-- The place in which something begins is an open frame or the top level. -/
theorem mem_shells_of_parent {address : Option String} {parent : String}
    (h : (assembly.nextBeginning address).parent = some parent) :
    parent ∈ assembly.shells.map Frame.address := by
  cases hshells : assembly.shells with
  | nil => simp [nextBeginning, hshells] at h
  | cons shell outer =>
    simp only [nextBeginning, hshells, List.head?_cons, Option.map_some, Option.some.injEq] at h
    simp [h]

end Assembly

/-! ## Histories -/

namespace Operation

/-- What an operation begins: a frame, a piece, or an empty paragraph at top level. -/
def beginnings (assembly : Assembly ω) : Operation → List Beginning
  | .openFrame _ _ => [assembly.nextBeginning (some assembly.nextAddress)]
  | .put _ => [assembly.nextBeginning none]
  | .closeFrame request =>
      if assembly.bringsParagraph request then
        [⟨none, assembly.nextIndex, some (assembly.startId ++ toString assembly.nextIndex)⟩]
      else []

/-- All that operations begin, one after the other. -/
def history (encoding : Encoding ω α) : List Operation → Assembly ω → List Beginning
  | [], _ => []
  | operation :: rest, assembly =>
      operation.beginnings assembly ++ history encoding rest (operation.apply encoding assembly).2

/-- The counts of an assembly are those of a history. -/
structure Counted (history : List Beginning) (assembly : Assembly ω) : Prop where
  root : assembly.nextIndex = Beginning.countIn none history
  shells : ∀ shell ∈ assembly.shells,
    shell.nextIndex = Beginning.countIn (some shell.address) history

/-- A history is that of an assembly: its frames are distinct, it counts as the assembly
does, and it has all frames that are open or whose closes are pending. -/
structure Recorded (startId : String) (history : List Beginning) (assembly : Assembly ω)
    (path : List Nat) : Prop where
  sameStart : assembly.startId = startId
  tidy : assembly.Tidy path
  given : ∀ beginning ∈ history, ∀ address,
    beginning.parent = some address ∨ beginning.address = some address →
      GivenBefore startId (assembly.nextPath path) address
  distinct : (Beginning.addresses history).Nodup
  counting : Beginning.Counting history
  spelling : Beginning.Spelling startId history
  counted : Counted history assembly
  opened : assembly.shells.map Frame.address ⊆ Beginning.addresses history
  pending : assembly.pending ⊆ Beginning.addresses history

variable {encoding : Encoding ω α} {startId : String} {past : List Beginning}
  {assembly : Assembly ω} {path : List Nat}

theorem recorded_start (startId : String) :
    Recorded startId [] (.start startId : Assembly ω) [] where
  sameStart := rfl
  tidy := Assembly.tidy_start startId
  given := by simp
  distinct := List.nodup_nil
  counting := by simp [Beginning.Counting]
  spelling := by simp [Beginning.Spelling]
  counted := ⟨rfl, by simp [Assembly.start, Assembly.shells]⟩
  opened := by simp [Assembly.start, Assembly.shells]
  pending := by simp [Assembly.start]

/-! ## Opening and putting in -/

/-- The index that is claimed next is the count of its place. -/
theorem Counted.index (h : Counted past assembly) (address : Option String) :
    (assembly.nextBeginning address).index =
      Beginning.countIn (assembly.nextBeginning address).parent past := by
  simp only [Assembly.nextBeginning]
  cases hshells : assembly.shells with
  | nil => exact h.root
  | cons shell outer => exact h.shells shell (by simp [hshells])

/-- Using up an index keeps the counts, as what begins is counted in its place. -/
theorem Counted.claimIndex (h : Counted past assembly)
    (hnodup : (assembly.shells.map Frame.address).Nodup) (address : Option String) :
    Counted (past ++ [assembly.nextBeginning address]) assembly.claimIndex := by
  cases hstack : assembly.stack with
  | nil =>
    have hshells : assembly.shells = [] := Assembly.shells_eq_nil hstack
    refine ⟨?_, ?_⟩
    · simp [Beginning.countIn_concat, Assembly.nextBeginning, Assembly.claimIndex, hstack,
        hshells, h.root]
    · simp [Assembly.claimIndex, hstack, Assembly.shells]
  | cons frame outer =>
    have hshells := Assembly.shells_eq_cons hstack
    have hclaimed : assembly.claimIndex.shells =
        { frame.shell with nextIndex := frame.nextIndex + 1 } :: outer.map Frame.shell := by
      simp [Assembly.claimIndex, hstack, Assembly.shells, Frame.shell]
    have hroot : assembly.claimIndex.nextIndex = assembly.nextIndex := by
      simp [Assembly.claimIndex, hstack]
    have hparent : (assembly.nextBeginning address).parent = some frame.address := by
      simp [Assembly.nextBeginning, hshells]
    rw [hshells, List.map_cons, List.nodup_cons] at hnodup
    refine ⟨?_, ?_⟩
    · simp [Beginning.countIn_concat, hparent, hroot, h.root]
    · intro shell hshell
      rw [hclaimed, List.mem_cons] at hshell
      rw [Beginning.countIn_concat, hparent]
      rcases hshell with rfl | houter
      · have hcount := h.shells frame.shell (by simp [hshells])
        simpa [Frame.shell] using hcount
      · have hne : frame.address ≠ shell.address := by
          intro hsame
          exact hnodup.1 (List.mem_map.mpr ⟨shell, houter, hsame.symm⟩)
        simp [hne, h.shells shell (by simp [hshells, houter])]

/-- What an operation begins takes its place in the history. -/
theorem Recorded.given_concat (h : Recorded startId past assembly path) {address : Option String}
    {next : List Nat} (hnext : assembly.nextPath path ≤ next)
    (haddress : ∀ own, address = some own → GivenBefore startId next own) :
    ∀ beginning ∈ past ++ [assembly.nextBeginning address], ∀ used,
      beginning.parent = some used ∨ beginning.address = some used →
        GivenBefore startId next used := by
  intro beginning hmem used hused
  rw [List.mem_append, List.mem_singleton] at hmem
  rcases hmem with hpast | rfl
  · exact (h.given beginning hpast used hused).mono hnext
  · rcases hused with hparent | hown
    · have hopen := h.tidy.used (.inr (Assembly.mem_shells_of_parent hparent))
      rw [h.sameStart] at hopen
      exact hopen.mono hnext
    · exact haddress used hown

/-- So does its address. -/
theorem Recorded.spelling_concat (h : Recorded startId past assembly path) {address : Option String}
    (haddress : ∀ own, address = some own → own = assembly.nextAddress) :
    Beginning.Spelling startId (past ++ [assembly.nextBeginning address]) := by
  intro beginning hmem own hown
  rw [List.mem_append, List.mem_singleton] at hmem
  rcases hmem with hpast | rfl
  · exact h.spelling beginning hpast own hown
  · rw [haddress own hown]
    rw [← h.sameStart]
    exact assembly.nextAddress_spelled address

/-- Opening a frame. -/
theorem Recorded.openFrame (h : Recorded startId past assembly path) (kind : FrameKind)
    (name : String) :
    Recorded startId (past ++ [assembly.nextBeginning (some assembly.nextAddress)])
      (assembly.openFrame kind name).2 (assembly.nextPath path) := by
  have htidy := h.tidy.openFrame kind name
  have hlt := (h.tidy.isAt.openFrame kind name).2
  have hstart : (assembly.openFrame kind name).2.startId = startId :=
    (Assembly.startId_openFrame assembly kind name).trans h.sameStart
  have hshells := Assembly.shells_openFrame assembly kind name
  have haddresses : Beginning.addresses
      (past ++ [assembly.nextBeginning (some assembly.nextAddress)]) =
        Beginning.addresses past ++ [assembly.nextAddress] :=
    Beginning.addresses_concat _ _
  have hunused : ∀ beginning ∈ past, ∀ address,
      beginning.parent = some address ∨ beginning.address = some address →
        address ≠ assembly.nextAddress := by
    rintro beginning hpast address hused rfl
    have hgiven := h.given beginning hpast _ hused
    rw [← h.sameStart] at hgiven
    exact h.tidy.isAt.nextAddress_new hgiven
  have hclaimed := h.counted.claimIndex h.tidy.isAt.nodup (some assembly.nextAddress)
  have hopened : GivenBefore startId
      ((assembly.openFrame kind name).2.nextPath (assembly.nextPath path))
      assembly.nextAddress := by
    rw [← hstart]
    exact htidy.used (.inr (by simp [hshells, Frame.fresh]))
  refine
    { sameStart := hstart
      tidy := htidy
      given := ?_
      distinct := ?_
      counting := h.counting.concat (h.counted.index _)
      spelling := ?_
      counted := ⟨hclaimed.root, ?_⟩
      opened := ?_
      pending := ?_ }
  · refine h.given_concat (le_of_lt hlt) ?_
    rintro own ⟨rfl⟩
    exact hopened
  · rw [haddresses]
    refine h.distinct.append (List.nodup_singleton _) ?_
    rw [List.disjoint_singleton]
    intro hmem
    obtain ⟨beginning, hpast, hown⟩ := Beginning.mem_addresses.mp hmem
    exact hunused beginning hpast _ (.inr hown) rfl
  · refine h.spelling_concat ?_
    rintro own ⟨rfl⟩
    rfl
  · intro shell hshell
    rw [hshells, List.mem_cons] at hshell
    rcases hshell with rfl | houter
    · -- Nothing has begun yet in a frame with a new address.
      symm
      refine List.countP_eq_zero.mpr ?_
      intro beginning hmem
      rw [List.mem_append, List.mem_singleton] at hmem
      simp only [Frame.fresh, beq_iff_eq]
      rcases hmem with hpast | rfl
      · exact fun hparent => hunused beginning hpast _ (.inl hparent) rfl
      · exact fun hparent => h.tidy.next_unused.2 (Assembly.mem_shells_of_parent hparent)
    · exact hclaimed.shells shell houter
  · rw [haddresses, hshells, List.map_cons, Assembly.addresses_claimIndex]
    intro address hmem
    rcases List.mem_cons.mp hmem with rfl | houter
    · exact List.mem_append_right _ (List.mem_singleton_self _)
    · exact List.mem_append_left _ (h.opened houter)
  · rw [haddresses, Assembly.pending_openFrame]
    exact fun address hmem => List.mem_append_left _ (h.pending hmem)

/-- Putting in a piece. -/
theorem Recorded.put (h : Recorded startId past assembly path) (encoding : Encoding ω α)
    (piece : Piece Widget) :
    Recorded startId (past ++ [assembly.nextBeginning none]) (assembly.put encoding piece)
      path := by
  have hshells := Assembly.shells_put encoding assembly piece
  have hroot : (assembly.put encoding piece).nextIndex = assembly.claimIndex.nextIndex :=
    Assembly.nextIndex_place _ _
  have haddresses : Beginning.addresses (past ++ [assembly.nextBeginning none]) =
      Beginning.addresses past := by
    rw [Beginning.addresses_concat]
    exact List.append_nil _
  have hclaimed := h.counted.claimIndex h.tidy.isAt.nodup none
  exact
    { sameStart := (Assembly.startId_put encoding assembly piece).trans h.sameStart
      tidy := h.tidy.put encoding piece
      given := h.given_concat (h.tidy.isAt.put encoding piece).2 (by simp)
      distinct := by
        rw [haddresses]
        exact h.distinct
      counting := h.counting.concat (h.counted.index none)
      spelling := h.spelling_concat (by simp)
      counted := ⟨hroot ▸ hclaimed.root, hshells ▸ hclaimed.shells⟩
      opened := by
        rw [haddresses, hshells, Assembly.addresses_claimIndex]
        exact h.opened
      pending := by
        rw [haddresses, Assembly.pending_put]
        exact h.pending }

/-! ## Closing -/

/-- Closing some of the innermost frames begins nothing. -/
theorem Recorded.closes (h : Recorded startId past assembly path) {count : Nat} {after : Assembly ω}
    (hcloses : Assembly.Closes encoding count assembly after) :
    ∃ path', Recorded startId past after path' := by
  obtain ⟨path', htidy, hle⟩ := h.tidy.shrinks hcloses.toShrinks
  have hshells : after.shells ⊆ assembly.shells := by
    rw [hcloses.shells]
    exact List.drop_subset _ _
  refine ⟨path',
    { sameStart := hcloses.startId.trans h.sameStart
      tidy := htidy
      given := ?_
      distinct := h.distinct
      counting := h.counting
      spelling := h.spelling
      counted := ⟨hcloses.root ▸ h.counted.root, ?_⟩
      opened := ?_
      pending := ?_ }⟩
  · exact fun beginning hmem address hused => (h.given beginning hmem address hused).mono hle
  · exact fun shell hshell => h.counted.shells shell (hshells hshell)
  · exact fun address hmem => h.opened (List.map_subset _ hshells hmem)
  · intro address hmem
    rcases hcloses.pending address hmem with hclosed | hold
    · exact h.opened (List.map_subset _ (List.take_subset _ _) hclosed)
    · exact h.pending hold

/-- With all frames closed, what begins next begins at top level. -/
theorem nextBeginning_emptied {emptied : Assembly ω}
    (hcloses : Assembly.Closes encoding assembly.depth assembly emptied) :
    emptied.nextBeginning (some emptied.nextAddress) =
      ⟨none, assembly.nextIndex, some (assembly.startId ++ toString assembly.nextIndex)⟩ := by
  have hstack := hcloses.stack_eq_nil
  simp only [Assembly.nextBeginning, Assembly.shells_eq_nil hstack, Assembly.nextAddress, hstack,
    hcloses.startId, hcloses.root]
  rfl

/-- Closing a frame begins nothing but an empty paragraph. -/
theorem Recorded.closeFrame (h : Recorded startId past assembly path) (encoding : Encoding ω α)
    (request : Closing) :
    ∃ path', Recorded startId (past ++ beginnings assembly (.closeFrame request))
      (assembly.closeFrame encoding request) path' := by
  have heffect := h.tidy.closeFrame_effect encoding request
  generalize assembly.closeFrame encoding request = after at heffect
  cases heffect with
  | closed count hparagraph hcloses =>
    obtain ⟨path', hclosed⟩ := h.closes hcloses
    refine ⟨path', ?_⟩
    simpa [beginnings, hparagraph] using hclosed
  | @paragraph emptied hparagraph hcloses =>
    obtain ⟨path', hemptied⟩ := h.closes hcloses
    obtain ⟨path'', hpopped⟩ := (hemptied.openFrame .ofElement "p").closes
      (Assembly.pop_closes encoding _)
    refine ⟨path'', ?_⟩
    rw [nextBeginning_emptied hcloses] at hpopped
    simpa [beginnings, hparagraph] using hpopped

/-! ## Runs -/

/-- What an operation begins extends the history. -/
theorem Recorded.apply (h : Recorded startId past assembly path) (encoding : Encoding ω α)
    (operation : Operation) :
    ∃ path', Recorded startId (past ++ operation.beginnings assembly)
      (operation.apply encoding assembly).2 path' := by
  cases operation with
  | openFrame kind name => exact ⟨_, h.openFrame kind name⟩
  | put piece => exact ⟨path, h.put encoding piece⟩
  | closeFrame request => exact h.closeFrame encoding request

/-- So does all that operations begin one after the other. -/
theorem recorded_run (encoding : Encoding ω α) (operations : List Operation)
    (h : Recorded startId past assembly path) :
    ∃ path', Recorded startId (past ++ history encoding operations assembly)
      (run encoding operations assembly) path' := by
  induction operations generalizing past assembly path with
  | nil =>
    rw [history, List.append_nil]
    exact ⟨path, h⟩
  | cons operation rest ih =>
    obtain ⟨path', hfirst⟩ := h.apply encoding operation
    rw [history, ← List.append_assoc]
    exact ih hfirst

/-- Whatever is opened, put in and closed from the start on, no two frames ever get the same
address; each beginning claims as its index how much began before it in the same place, and a
frame has the address that spells out its place and its index; the counts of the root and of
the open frames are those of the history; and closes are pending only for frames that were
opened before and are not open. -/
theorem history_numbered (encoding : Encoding ω α) (startId : String)
    (operations : List Operation) :
    (Beginning.addresses (history encoding operations (.start startId))).Nodup ∧
      (Beginning.Counting (history encoding operations (.start startId)) ∧
        Beginning.Spelling startId (history encoding operations (.start startId)) ∧
        Counted (history encoding operations (.start startId))
          (run encoding operations (.start startId))) ∧
      ∀ address ∈ (run encoding operations (.start startId)).pending,
        address ∈ Beginning.addresses (history encoding operations (.start startId)) ∧
          address ∉ (run encoding operations (.start startId)).openAddresses := by
  obtain ⟨path, h⟩ := recorded_run encoding operations (recorded_start startId)
  rw [List.nil_append] at h
  refine ⟨h.distinct, ⟨h.counting, h.spelling, h.counted⟩, ?_⟩
  intro address hmem
  refine ⟨h.pending hmem, ?_⟩
  rw [Assembly.openAddresses_eq, List.mem_reverse]
  exact h.tidy.apart address hmem

/-- A tag closes the list and the item in it, so the second item begins at top level, and so
does the paragraph of the stray tag at the end. -/
example :
    history .tree [.openFrame .ofElement "ul", .openFrame .ofAttribute "id", .put (.text "a"),
        .closeFrame ⟨some "x0.0", .ofAttribute, "id", false⟩, .openFrame .ofElement "li",
        .closeFrame (.ofTag none "ul"), .openFrame .ofElement "li", .closeFrame (.ofTag none "p")]
        (.start "x") =
      [⟨none, 0, some "x0"⟩, ⟨some "x0", 0, some "x0.0"⟩, ⟨some "x0.0", 0, none⟩,
        ⟨some "x0", 1, some "x0.1"⟩, ⟨none, 1, some "x1"⟩, ⟨none, 2, some "x2"⟩] := by
  decide +kernel

end Operation

end Stencil
