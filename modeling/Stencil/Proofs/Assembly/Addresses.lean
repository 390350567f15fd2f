import Mathlib.Data.List.Lex
import Stencil.Proofs.Assembly.Steps

/-!
# The addresses of frames

An address spells out a path: the index of a top-level frame, of a frame within it, and
so on.  Frames that are opened later have later paths in the order of a dictionary, also
after others have been closed, so no address is ever given out twice.

* `addressAt_inj` — paths with the same address are the same.
* `Frame.Numbered` — the addresses of the open frames follow the indices that they claimed.
* `Frame.Numbered.drop` — closing frames never takes the next path back.
* `Assembly.IsAt.nextAddress_new` — the next address has not been given out yet.
-/

namespace Stencil

/-! ## Paths as text -/

/-- The address of a path; the indices are those of the frames from the outside in, and
their numbers are set apart by dots. -/
def addressAt (startId : String) : List Nat → String
  | [] => startId
  | index :: inner =>
      inner.foldl (fun address index => address ++ "." ++ toString index)
        (startId ++ toString index)

theorem addressAt_singleton (startId : String) (index : Nat) :
    addressAt startId [index] = startId ++ toString index := rfl

theorem addressAt_inner (startId : String) {path : List Nat} (hpath : path ≠ []) (index : Nat) :
    addressAt startId (path ++ [index]) = addressAt startId path ++ "." ++ toString index := by
  cases path with
  | nil => exact absurd rfl hpath
  | cons first inner =>
    rw [List.cons_append, addressAt, List.foldl_append]
    rfl

/-- The part of an address that is within a frame. -/
def innerText (inner : List Nat) : List Char :=
  inner.flatMap fun index => '.' :: Nat.toDigits 10 index

theorem toList_addressAt (startId : String) (index : Nat) (inner : List Nat) :
    (addressAt startId (index :: inner)).toList =
      startId.toList ++ (Nat.toDigits 10 index ++ innerText inner) := by
  have hfold : ∀ (inner : List Nat) (address : String),
      (inner.foldl (fun address index => address ++ "." ++ toString index) address).toList =
        address.toList ++ innerText inner := by
    intro inner
    induction inner with
    | nil => intro address; simp [innerText]
    | cons index rest ih =>
      intro address
      rw [List.foldl_cons, ih]
      simp [innerText]
  rw [addressAt, hfold]
  simp

theorem toDigits_inj {m n : Nat} (h : Nat.toDigits 10 m = Nat.toDigits 10 n) : m = n := by
  rw [← Nat.ofDigitChars_ten_toDigits (n := m), h, Nat.ofDigitChars_ten_toDigits]

/-- A number is read back from the front of a text up to the next dot. -/
theorem takeWhile_toDigits (index : Nat) (inner : List Nat) :
    (Nat.toDigits 10 index ++ innerText inner).takeWhile Char.isDigit = Nat.toDigits 10 index ∧
      (Nat.toDigits 10 index ++ innerText inner).dropWhile Char.isDigit = innerText inner := by
  have hdigits : ∀ c ∈ Nat.toDigits 10 index, c.isDigit = true :=
    fun c hc => Nat.isDigit_of_mem_toDigits (by decide) (by decide) hc
  have hdot : (innerText inner).takeWhile Char.isDigit = [] ∧
      (innerText inner).dropWhile Char.isDigit = innerText inner := by
    cases inner with
    | nil => exact ⟨rfl, rfl⟩
    | cons first rest => exact ⟨rfl, rfl⟩
  rw [List.takeWhile_append_of_pos hdigits, List.dropWhile_append_of_pos hdigits, hdot.1, hdot.2]
  exact ⟨List.append_nil _, rfl⟩

theorem toDigits_append_inj {first second : Nat} {inner inner' : List Nat}
    (h : Nat.toDigits 10 first ++ innerText inner = Nat.toDigits 10 second ++ innerText inner') :
    first = second ∧ innerText inner = innerText inner' := by
  refine ⟨toDigits_inj ?_, ?_⟩
  · rw [← (takeWhile_toDigits first inner).1, h, (takeWhile_toDigits second inner').1]
  · rw [← (takeWhile_toDigits first inner).2, h, (takeWhile_toDigits second inner').2]

theorem innerText_inj {inner inner' : List Nat} (h : innerText inner = innerText inner') :
    inner = inner' := by
  induction inner generalizing inner' with
  | nil =>
    cases inner' with
    | nil => rfl
    | cons first' rest' => simp [innerText] at h
  | cons first rest ih =>
    cases inner' with
    | nil => simp [innerText] at h
    | cons first' rest' =>
      have hdigits : Nat.toDigits 10 first ++ innerText rest =
          Nat.toDigits 10 first' ++ innerText rest' := by
        simpa [innerText] using h
      obtain ⟨hfirst, hrest⟩ := toDigits_append_inj hdigits
      rw [hfirst, ih hrest]

/-- Paths with the same address are the same. -/
theorem addressAt_inj (startId : String) {path path' : List Nat} (hpath : path ≠ [])
    (hpath' : path' ≠ []) (h : addressAt startId path = addressAt startId path') :
    path = path' := by
  obtain ⟨first, inner, rfl⟩ := List.exists_cons_of_ne_nil hpath
  obtain ⟨first', inner', rfl⟩ := List.exists_cons_of_ne_nil hpath'
  have htext := congrArg String.toList h
  rw [toList_addressAt, toList_addressAt, List.append_cancel_left_eq] at htext
  obtain ⟨hfirst, hinner⟩ := toDigits_append_inj htext
  rw [hfirst, innerText_inj hinner]

/-! ## Later paths -/

/-- A path is before the paths that continue it. -/
theorem path_lt_append (path : List Nat) (index : Nat) : path < path ++ [index] := by
  have h : path ++ [] < path ++ [index] := List.append_left_lt (List.nil_lt_cons index [])
  rwa [List.append_nil] at h

/-- Among the paths into one frame, those with a greater index come later, however deep the
others go on. -/
theorem path_lt_of_index_lt (path inner inner' : List Nat) {index index' : Nat}
    (h : index < index') : path ++ index :: inner < path ++ index' :: inner' :=
  List.append_left_lt (List.cons_lt_cons_iff.mpr (.inl h))

theorem path_le_of_index_le (path : List Nat) {index index' : Nat} (h : index ≤ index') :
    path ++ [index] ≤ path ++ [index'] := by
  rcases Nat.eq_or_lt_of_le h with rfl | hlt
  · exact le_refl _
  · exact le_of_lt (path_lt_of_index_lt path [] [] hlt)

theorem path_lt_of_begins {path path' : List Nat} (h : path <+: path') (index : Nat) :
    path < path' ++ [index] := by
  obtain ⟨rest, rfl⟩ := h
  have hne : rest ++ [index] ≠ [] := by simp
  obtain ⟨first, inner, hrest⟩ := List.exists_cons_of_ne_nil hne
  have hlt : path ++ [] < path ++ (rest ++ [index]) := by
    rw [hrest]
    exact List.append_left_lt (List.nil_lt_cons first inner)
  rwa [List.append_nil, ← List.append_assoc] at hlt

/-- Whether an address was given out before a path was reached. -/
def GivenBefore (startId : String) (next : List Nat) (address : String) : Prop :=
  ∃ path, path ≠ [] ∧ address = addressAt startId path ∧ path < next

theorem GivenBefore.mono {startId : String} {next next' : List Nat} {address : String}
    (h : GivenBefore startId next address) (hle : next ≤ next') :
    GivenBefore startId next' address := by
  obtain ⟨path, hpath, haddress, hlt⟩ := h
  exact ⟨path, hpath, haddress, lt_of_lt_of_le hlt hle⟩

/-- The address of a path has not been given out before the path was reached. -/
theorem not_givenBefore {startId : String} {next next' : List Nat} (hnext' : next' ≠ [])
    (hle : next ≤ next') : ¬ GivenBefore startId next (addressAt startId next') := by
  rintro ⟨path, hpath, haddress, hlt⟩
  have hsame : next' = path := addressAt_inj startId hnext' hpath haddress
  rw [hsame] at hle
  exact absurd hlt (not_lt_of_ge hle)

/-! ## Open frames -/

namespace Frame

/-- The index of what begins next, within the innermost of some frames or at top level. -/
def upcoming (root : Nat) : List (Frame Empty) → Nat
  | [] => root
  | frame :: _ => frame.nextIndex

/-- The addresses of open frames are those of a path, and each index of the path was claimed
from the frame around. -/
inductive Numbered (startId : String) (root : Nat) : List (Frame Empty) → List Nat → Prop
  | nil : Numbered startId root [] []
  | cons {frame : Frame Empty} {outer : List (Frame Empty)} {path : List Nat} {index : Nat}
      (houter : Numbered startId root outer path) (hindex : index < upcoming root outer)
      (haddress : frame.address = addressAt startId (path ++ [index])) :
      Numbered startId root (frame :: outer) (path ++ [index])

variable {startId : String} {root : Nat} {shells : List (Frame Empty)} {path : List Nat}

theorem upcoming_mono (shells : List (Frame Empty)) {root' : Nat} (hroot : root ≤ root') :
    upcoming root shells ≤ upcoming root' shells := by
  cases shells with
  | nil => exact hroot
  | cons frame outer => exact le_refl _

theorem Numbered.mono (h : Numbered startId root shells path) {root' : Nat}
    (hroot : root ≤ root') : Numbered startId root' shells path := by
  induction h with
  | nil => exact .nil
  | cons houter hindex haddress ih =>
    exact .cons ih (lt_of_lt_of_le hindex (upcoming_mono _ hroot)) haddress

/-- Every open frame has the address of a path that the innermost one continues. -/
theorem Numbered.along (h : Numbered startId root shells path) :
    ∀ frame ∈ shells,
      ∃ outer, outer ≠ [] ∧ frame.address = addressAt startId outer ∧ outer <+: path := by
  induction h with
  | nil => simp
  | @cons frame outer path index houter hindex haddress ih =>
    intro other hother
    rcases List.mem_cons.mp hother with rfl | hother
    · exact ⟨path ++ [index], by simp, haddress, List.prefix_refl _⟩
    · obtain ⟨around, haround, hat, hbegins⟩ := ih other hother
      exact ⟨around, haround, hat, hbegins.trans (List.prefix_append _ _)⟩

theorem Numbered.givenBefore (h : Numbered startId root shells path) :
    ∀ frame ∈ shells, GivenBefore startId (path ++ [upcoming root shells]) frame.address := by
  intro frame hframe
  obtain ⟨outer, houter, haddress, hbegins⟩ := h.along frame hframe
  exact ⟨outer, houter, haddress, path_lt_of_begins hbegins _⟩

/-- No two open frames have the same address. -/
theorem Numbered.nodup (h : Numbered startId root shells path) :
    (shells.map Frame.address).Nodup := by
  induction h with
  | nil => exact List.nodup_nil
  | @cons frame outer path index houter hindex haddress ih =>
    rw [List.map_cons, List.nodup_cons]
    refine ⟨fun hmem => ?_, ih⟩
    obtain ⟨other, hother, hsame⟩ := List.mem_map.mp hmem
    obtain ⟨around, haround, hat, hbegins⟩ := houter.along other hother
    have hpath : path ++ [index] = around :=
      addressAt_inj startId (by simp) haround (by rw [← haddress, ← hsame, hat])
    have hlt := path_lt_of_begins hbegins index
    rw [hpath] at hlt
    exact lt_irrefl _ hlt

/-- Closing frames leaves the others numbered, and never takes the next path back. -/
theorem Numbered.drop (h : Numbered startId root shells path) (count : Nat) :
    ∃ path', Numbered startId root (shells.drop count) path' ∧
      path ++ [upcoming root shells] ≤ path' ++ [upcoming root (shells.drop count)] := by
  induction h generalizing count with
  | nil =>
    rw [List.drop_nil]
    exact ⟨[], .nil, le_refl _⟩
  | @cons frame outer path index houter hindex haddress ih =>
    cases count with
    | zero => exact ⟨path ++ [index], .cons houter hindex haddress, le_refl _⟩
    | succ count =>
      obtain ⟨path', hnumbered, hle⟩ := ih count
      have hlt := path_lt_of_index_lt path [upcoming root (frame :: outer)] [] hindex
      refine ⟨path', hnumbered, le_trans (le_of_lt ?_) hle⟩
      rw [List.append_assoc]
      exact hlt

/-- The next path within open frames is before the next path at top level. -/
theorem Numbered.le_root (h : Numbered startId root shells path) :
    path ++ [upcoming root shells] ≤ [root] := by
  obtain ⟨path', hnumbered, hle⟩ := h.drop shells.length
  rw [List.drop_length] at hnumbered hle
  cases hnumbered
  exact hle

end Frame

/-! ## Assemblies -/

namespace Assembly

variable {ω α : Type} {assembly : Assembly ω} {path : List Nat}

/-- The open frames of an assembly are at a path. -/
def IsAt (assembly : Assembly ω) (path : List Nat) : Prop :=
  Frame.Numbered assembly.startId assembly.nextIndex assembly.shells path

/-- The path of what begins next in an assembly whose open frames are at a path. -/
def nextPath (assembly : Assembly ω) (path : List Nat) : List Nat :=
  path ++ [Frame.upcoming assembly.nextIndex assembly.shells]

theorem isAt_start (startId : String) : (start startId : Assembly ω).IsAt [] := .nil

theorem nextPath_ne_nil (assembly : Assembly ω) (path : List Nat) :
    assembly.nextPath path ≠ [] := by simp [nextPath]

theorem IsAt.nextAddress (h : assembly.IsAt path) :
    assembly.nextAddress = addressAt assembly.startId (assembly.nextPath path) := by
  unfold IsAt at h
  rw [nextAddress_eq, nextPath]
  cases hshells : assembly.shells with
  | nil =>
    rw [hshells] at h
    cases h
    rfl
  | cons frame outer =>
    rw [hshells] at h
    cases h with
    | cons houter hindex haddress =>
      rw [addressAt_inner _ (by simp), ← haddress]
      rfl

/-- Using up an index moves the next path on, and leaves the open frames where they are. -/
theorem IsAt.claimIndex (h : assembly.IsAt path) :
    assembly.claimIndex.IsAt path ∧
      Frame.upcoming assembly.claimIndex.nextIndex assembly.claimIndex.shells =
        Frame.upcoming assembly.nextIndex assembly.shells + 1 := by
  obtain ⟨startId, stack, results, nextIndex, pending, log⟩ := assembly
  cases stack with
  | nil => exact ⟨h.mono (Nat.le_succ nextIndex), rfl⟩
  | cons frame outer =>
    refine ⟨?_, rfl⟩
    have hnumbered : Frame.Numbered startId nextIndex
        (frame.shell :: outer.map Frame.shell) path := h
    cases hnumbered with
    | cons houter hindex haddress => exact .cons houter hindex haddress

theorem IsAt.nextPath_claimIndex_lt (h : assembly.IsAt path) :
    assembly.nextPath path < assembly.claimIndex.nextPath path := by
  rw [nextPath, nextPath, h.claimIndex.2]
  exact path_lt_of_index_lt path [] [] (Nat.lt_succ_self _)

/-- A frame that is opened is at the path that was next. -/
theorem IsAt.openFrame (h : assembly.IsAt path) (kind : FrameKind) (name : String) :
    (assembly.openFrame kind name).2.IsAt (assembly.nextPath path) ∧
      assembly.nextPath path <
        (assembly.openFrame kind name).2.nextPath (assembly.nextPath path) := by
  refine ⟨.cons h.claimIndex.1 ?_ ?_, path_lt_append _ _⟩
  · show _ < Frame.upcoming assembly.claimIndex.nextIndex assembly.claimIndex.shells
    rw [h.claimIndex.2]
    exact Nat.lt_succ_self _
  · show assembly.nextAddress = addressAt assembly.claimIndex.startId _
    rw [h.nextAddress, startId_claimIndex]
    rfl

theorem IsAt.put (h : assembly.IsAt path) (encoding : Encoding ω α) (piece : Piece Widget) :
    (assembly.put encoding piece).IsAt path ∧
      assembly.nextPath path ≤ (assembly.put encoding piece).nextPath path := by
  have hnext : (assembly.put encoding piece).nextIndex = assembly.claimIndex.nextIndex := by
    rw [Assembly.put, nextIndex_place]
  have hstart : (assembly.put encoding piece).startId = assembly.claimIndex.startId := by
    rw [startId_put, startId_claimIndex]
  refine ⟨?_, ?_⟩
  · rw [IsAt, hnext, hstart, shells_put]
    exact h.claimIndex.1
  · rw [nextPath, nextPath, hnext, shells_put]
    exact le_of_lt h.nextPath_claimIndex_lt

/-- No two open frames of an assembly have the same address. -/
theorem IsAt.nodup (h : assembly.IsAt path) : (assembly.shells.map Frame.address).Nodup :=
  Frame.Numbered.nodup h

/-- The addresses of the open frames were given out before. -/
theorem IsAt.givenBefore (h : assembly.IsAt path) :
    ∀ shell ∈ assembly.shells,
      GivenBefore assembly.startId (assembly.nextPath path) shell.address :=
  Frame.Numbered.givenBefore h

/-- The next address has not been given out yet. -/
theorem IsAt.nextAddress_new (h : assembly.IsAt path) :
    ¬ GivenBefore assembly.startId (assembly.nextPath path) assembly.nextAddress := by
  rw [h.nextAddress]
  exact not_givenBefore (assembly.nextPath_ne_nil path) (le_refl _)

/-- Neither has the next address at top level. -/
theorem IsAt.rootAddress_new (h : assembly.IsAt path) :
    ¬ GivenBefore assembly.startId (assembly.nextPath path)
      (assembly.startId ++ toString assembly.nextIndex) := by
  rw [← addressAt_singleton]
  exact not_givenBefore (by simp) h.le_root

end Assembly

end Stencil
