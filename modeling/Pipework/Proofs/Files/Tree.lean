import Pipework.Proofs.Stage.Frame

/-!
# What requests make of a file in memory

A file that can be written is there or can be made, since the directories above it are. Opening it for writing
empties it or leaves it as it is, and closing a writer adds to it what the writer was given. No other place in
the tree is touched.
-/

namespace Pipework

namespace FileTree

/-- There is a file at `p`, or nothing is there and all places above are directories. -/
def Writable (t : FileTree) (p : Place) : Prop :=
  (∃ data x, t.find? p = some (.file data x)) ∨
    t.find? p = none ∧ ∀ q, q <+: p → q ≠ p → t.isDirectory q = true

/-- What the file at `p` holds, nothing if there is none. -/
def content (t : FileTree) (p : Place) : Bytes := (t.read? p).getD []

/-- In the tree `t'` the file at `p` holds `data`, and every other place is as in `t`. -/
structure Becomes (t : FileTree) (p : Place) (data : Bytes) (t' : FileTree) : Prop where
  here : ∃ x, t'.find? p = some (.file data x)
  elsewhere : ∀ q, q ≠ p → t'.find? q = t.find? q

theorem Writable.ne_nil {t : FileTree} {p : Place} (h : t.Writable p) : p ≠ [] := by
  rintro rfl
  rcases h with ⟨data, x, hFile⟩ | ⟨hNone, -⟩
  · cases hFile
  · cases hNone

theorem Writable.file {t : FileTree} {p : Place} (h : t.Writable p) (hSome : t.find? p ≠ none) :
    ∃ data x, t.find? p = some (.file data x) := h.resolve_right fun hNone => hSome hNone.1

theorem Becomes.writable {t t' : FileTree} {p : Place} {data : Bytes} (h : t.Becomes p data t') : t'.Writable p := by
  obtain ⟨x, hFile⟩ := h.here
  exact .inl ⟨data, x, hFile⟩

theorem Becomes.content {t t' : FileTree} {p : Place} {data : Bytes} (h : t.Becomes p data t') :
    t'.content p = data := by
  obtain ⟨x, hFile⟩ := h.here
  simp [FileTree.content, read?, hFile]

theorem Becomes.trans {t t' t'' : FileTree} {p : Place} {data more : Bytes} (h : t.Becomes p data t')
    (h' : t'.Becomes p more t'') : t.Becomes p more t'' := by
  refine ⟨h'.here, ?_⟩
  intro q hq
  rw [h'.elsewhere q hq, h.elsewhere q hq]

theorem becomes_put (t : FileTree) {p : Place} (hp : p ≠ []) (data : Bytes) (x : Bool) :
    t.Becomes p data (t.put p (.file data x)) := by
  refine ⟨⟨x, ?_⟩, ?_⟩
  · rw [find?_put t p p _ hp, if_pos rfl]
  · intro q hq
    rw [find?_put t p q _ hp, if_neg hq]

theorem Becomes.modify {t t' : FileTree} {p : Place} {data : Bytes} (h : t.Becomes p data t') (f : Bytes → Bytes) :
    t.Becomes p (f data) (t'.modify p f) := by
  obtain ⟨x, hFile⟩ := h.here
  unfold FileTree.modify
  rw [hFile]
  exact h.trans (becomes_put t' h.writable.ne_nil (f data) x)

theorem makeBelow_eq {t : FileTree} {above : Place} {names : List String}
    (h : ∀ q, q <+: names → t.isDirectory (above ++ q) = true) : t.makeBelow above names = some t := by
  induction names generalizing above with
  | nil => rfl
  | cons name names ih =>
    have hHere : t.find? (above ++ [name]) = some .directory := by
      have hDirectory := h [name] (by simp)
      rwa [isDirectory, beq_iff_eq] at hDirectory
    unfold makeBelow
    dsimp only
    rw [hHere]
    apply ih
    intro q hq
    rw [List.append_assoc, List.singleton_append]
    exact h (name :: q) (List.cons_prefix_cons.mpr ⟨rfl, hq⟩)

theorem above_of_prefix_dropLast {p q : Place} (hp : p ≠ []) (hq : q <+: p.dropLast) : q <+: p ∧ q ≠ p := by
  refine ⟨hq.trans (List.dropLast_prefix p), ?_⟩
  rintro rfl
  have hLength := hq.length_le
  have hPos := List.length_pos_iff.mpr hp
  rw [List.length_dropLast] at hLength
  omega

theorem makeAll_dropLast {t : FileTree} {p : Place} (hp : p ≠ [])
    (h : ∀ q, q <+: p → q ≠ p → t.isDirectory q = true) : t.makeAll p.dropLast = some t :=
  makeBelow_eq fun q hq =>
    have ⟨hPrefix, hOther⟩ := above_of_prefix_dropLast hp hq
    h q hPrefix hOther

end FileTree

namespace Memory

open FileTree

theorem touch_becomes {t : FileTree} {path : String} (h : t.Writable (place path)) (verb : String) :
    ∃ t', touch verb t path = .ok t' ∧ t.Becomes (place path) (t.content (place path)) t' := by
  rcases h with ⟨data, x, hFile⟩ | ⟨hNone, hAbove⟩
  · refine ⟨t, ?_, ⟨x, ?_⟩, fun q _ => rfl⟩
    · simp [touch, hFile]
    · simp [content, read?, hFile]
  · have hp : place path ≠ [] := Writable.ne_nil (.inr ⟨hNone, hAbove⟩)
    have hContent : t.content (place path) = [] := by simp [content, read?, hNone]
    refine ⟨t.put (place path) (.file [] false), ?_, hContent ▸ becomes_put t hp [] false⟩
    simp [touch, hNone, makeAll_dropLast hp hAbove]

theorem create_becomes {t : FileTree} {path : String} (h : t.Writable (place path)) :
    ∃ t', create t path = .ok t' ∧ t.Becomes (place path) [] t' := by
  obtain ⟨t', hTouch, hBecomes⟩ := touch_becomes h "create"
  refine ⟨_, ?_, hBecomes.modify fun _ => []⟩
  rw [create, hTouch]
  rfl

theorem append_becomes {t : FileTree} {path : String} (h : t.Writable (place path)) :
    ∃ t', append t path = .ok t' ∧ t.Becomes (place path) (t.content (place path)) t' := by
  obtain ⟨t', hTouch, hBecomes⟩ := touch_becomes h "append"
  refine ⟨t', ?_, hBecomes⟩
  have hFile : t.isDirectory (place path) = false := by
    rcases h with ⟨data, x, hFile⟩ | ⟨hNone, -⟩
    · simp [FileTree.isDirectory, hFile]
    · simp [FileTree.isDirectory, hNone]
  unfold append
  rw [List.getLast?_eq_some_getLast h.ne_nil, hFile]
  exact hTouch

end Memory

namespace World

/-- A file at `path` is opened for writing; without `appends` it is emptied. -/
def opening (appends : Bool) (path : String) : FileRequest := if appends then .append path else .create path

theorem shelf_eq_iff {w : World} {inMemory : Bool} {t : FileTree} :
    w.shelf = (inMemory, t) ↔ w.inMemory = inMemory ∧ w.memory = t := by
  simp [shelf]

/-- The file at `path` is made if it is not there, and holds what it did or nothing. -/
theorem serve_opening {w : World} {t : FileTree} {path : String} (hShelf : w.shelf = (true, t))
    (h : t.Writable (Memory.place path)) (appends : Bool) :
    ∃ t', (w.serve .shell (opening appends path)).1 = .ok .nothing ∧
      (w.serve .shell (opening appends path)).2.shelf = (true, t') ∧
      t.Becomes (Memory.place path) (if appends then t.content (Memory.place path) else []) t' := by
  obtain ⟨hMemory, rfl⟩ := shelf_eq_iff.mp hShelf
  cases appends with
  | true =>
    obtain ⟨t', hAppend, hBecomes⟩ := Memory.append_becomes h
    refine ⟨t', ?_, ?_, hBecomes⟩ <;> simp [opening, serve, hMemory, serveMemory, hAppend, Except.map, shelf]
  | false =>
    obtain ⟨t', hCreate, hBecomes⟩ := Memory.create_becomes h
    refine ⟨t', ?_, ?_, hBecomes⟩ <;> simp [opening, serve, hMemory, serveMemory, hCreate, Except.map, shelf]

theorem serve_commit {w : World} {t t' : FileTree} {path : String} {data : Bytes} (hShelf : w.shelf = (true, t'))
    (h : t.Becomes (Memory.place path) data t') (more : Bytes) :
    ∃ t'', (w.serve .shell (.commit path more)).2.shelf = (true, t'') ∧
      t.Becomes (Memory.place path) (data ++ more) t'' := by
  obtain ⟨hMemory, rfl⟩ := shelf_eq_iff.mp hShelf
  refine ⟨_, ?_, h.modify (· ++ more)⟩
  simp [serve, hMemory, serveMemory, Memory.commit, shelf]

theorem serve_read {w : World} {t : FileTree} {path : String} {data : Bytes} {x : Bool} (hShelf : w.shelf = (true, t))
    (hFile : t.find? (Memory.place path) = some (.file data x)) :
    w.serve .shell (.read path) = (.ok (.ofBytes data), w) := by
  obtain ⟨hMemory, rfl⟩ := shelf_eq_iff.mp hShelf
  have hOpen : serveMemory w.memory (.read path) = .ok (.ofBytes data, w.memory) := by
    simp [serveMemory, Memory.open?, hFile, Except.map]
  unfold serve
  dsimp only
  rw [if_pos hMemory, hOpen]

end World

end Pipework
