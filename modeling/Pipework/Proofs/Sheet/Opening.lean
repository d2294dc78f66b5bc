import Mathlib.Data.List.Infix
import Pipework.Proofs.Files.Tree

/-!
# Opening files one after the other

A file can be opened for writing if it is there, or if nothing is there and no file is in the way: the directories above
it are made. Files at different places that are opened one after the other hold what they held, or nothing, and what is
written to them is added when they are closed. Apart from directories that were made on the way to them, nothing else
changes in the tree.
-/

namespace Pipework

namespace FileTree

variable {t t' t₁ t₂ : FileTree} {p q : Place} {ps qs : List Place} {c d : Place → Bytes}

/-- There is a file at `p`, or nothing is there and each place above is a directory or empty. -/
def Openable (t : FileTree) (p : Place) : Prop :=
  (∃ data x, t.find? p = some (.file data x)) ∨
    t.find? p = none ∧ ∀ q, q <+: p → q ≠ p → t.find? q = none ∨ t.find? q = some .directory

/-- The files at `ps` are laid: each holds what `c` says of it. Elsewhere the tree is as `t`, apart from directories on
the way to the files where nothing was. -/
structure Laid (t : FileTree) (ps : List Place) (c : Place → Bytes) (t' : FileTree) : Prop where
  files : ∀ p ∈ ps, ∃ x, t'.find? p = some (.file (c p) x)
  elsewhere : ∀ q ∉ ps, t'.find? q = t.find? q ∨
    t.find? q = none ∧ t'.find? q = some .directory ∧ ∃ p ∈ ps, q <+: p

theorem Openable.ne_nil (h : t.Openable p) : p ≠ [] := by
  rintro rfl
  rcases h with ⟨data, x, hFile⟩ | ⟨hNone, -⟩
  · cases hFile
  · cases hNone

theorem Openable.not_directory (h : t.Openable p) : t.find? p ≠ some .directory := by
  rcases h with ⟨data, x, hFile⟩ | ⟨hNone, -⟩
  · simp [hFile]
  · simp [hNone]

theorem find?_modify {data : Bytes} {x : Bool} (h : t.find? p = some (.file data x)) (f : Bytes → Bytes) (q : Place) :
    (t.modify p f).find? q = if q = p then some (.file (f data) x) else t.find? q := by
  have hp : p ≠ [] := by
    rintro rfl
    cases h
  unfold modify
  rw [h]
  exact find?_put t p q _ hp

/-- Directories are made only where nothing was. -/
theorem makeBelow_elsewhere {above : Place} {names : List String}
    (h : ∀ r, r <+: names → r ≠ [] → t.find? (above ++ r) = none ∨ t.find? (above ++ r) = some .directory) :
    ∃ t', t.makeBelow above names = some t' ∧ ∀ q, t'.find? q = t.find? q ∨
      t.find? q = none ∧ t'.find? q = some .directory ∧ q <+: above ++ names := by
  induction names generalizing t above with
  | nil => exact ⟨t, rfl, fun q => .inl rfl⟩
  | cons name names ih =>
    have hNext (r : List String) : above ++ [name] ++ r = above ++ name :: r := by simp
    have hBelow (r : List String) (hr : r <+: names) :
        t.find? (above ++ [name] ++ r) = none ∨ t.find? (above ++ [name] ++ r) = some .directory := by
      rw [hNext]
      exact h (name :: r) (List.cons_prefix_cons.mpr ⟨rfl, hr⟩) (List.cons_ne_nil _ _)
    have hHere := h [name] (by simp) (by simp)
    unfold makeBelow
    dsimp only
    rw [← hNext names]
    rcases hHere with hNone | hDirectory
    · rw [hNone]
      have hPut := find?_put t (above ++ [name])
      obtain ⟨t', hMade, hElse⟩ := @ih (t.put (above ++ [name]) .directory) (above ++ [name]) fun r hr hNil => by
        rw [hPut _ _ (by simp), if_neg (by simpa using hNil)]
        exact hBelow r hr
      refine ⟨t', hMade, fun q => ?_⟩
      have hq := hElse q
      rw [hPut _ _ (by simp)] at hq
      by_cases hSame : q = above ++ [name]
      · rw [if_pos hSame] at hq
        subst hSame
        refine .inr ⟨hNone, hq.elim id fun hOther => hOther.2.1, List.prefix_append _ _⟩
      · rw [if_neg hSame] at hq
        exact hq
    · rw [hDirectory]
      exact ih fun r hr _ => hBelow r hr

theorem Openable.makeAll (h : t.Openable p) (hNone : t.find? p = none) :
    ∃ t', t.makeAll p.dropLast = some t' ∧ ∀ q, t'.find? q = t.find? q ∨
      t.find? q = none ∧ t'.find? q = some .directory ∧ q <+: p := by
  have hAbove := (h.resolve_left fun ⟨data, x, hFile⟩ => by rw [hNone] at hFile; cases hFile).2
  obtain ⟨t', hMade, hElse⟩ :=
    @makeBelow_elsewhere t [] p.dropLast fun r hr _ =>
      have ⟨hPrefix, hOther⟩ := above_of_prefix_dropLast h.ne_nil hr
      hAbove r hPrefix hOther
  refine ⟨t', hMade, fun q => (hElse q).imp_right fun ⟨hq, hDirectory, hPrefix⟩ => ⟨hq, hDirectory, ?_⟩⟩
  exact hPrefix.trans (List.dropLast_prefix p)

namespace Laid

theorem congr (h : t.Laid ps c t') (hSame : ∀ p ∈ ps, c p = d p) : t.Laid ps d t' where
  files p hp := hSame p hp ▸ h.files p hp
  elsewhere := h.elsewhere

theorem content (h : t.Laid ps c t') (hp : p ∈ ps) : t'.content p = c p := by
  obtain ⟨x, hFile⟩ := h.files p hp
  simp [FileTree.content, read?, hFile]

/-- What can be opened as a file afterwards, and is none of the files laid, is as it was. -/
theorem find?_eq (h : t.Laid ps c t') (hp : p ∉ ps) (hOpen : t'.Openable p) : t'.find? p = t.find? p :=
  (h.elsewhere p hp).resolve_right fun hMade => hOpen.not_directory hMade.2.1

theorem trans (h : t.Laid ps c t₁) (h' : t₁.Laid qs c t₂) (hOther : ∀ p ∈ ps, p ∉ qs) :
    t.Laid (ps ++ qs) c t₂ where
  files p hp := by
    rcases List.mem_append.mp hp with hp | hp
    · obtain ⟨x, hFile⟩ := h.files p hp
      -- Where there is a file no directory is made.
      have hSame : t₂.find? p = t₁.find? p :=
        (h'.elsewhere p (hOther p hp)).resolve_right fun hMade => by
          rw [hFile] at hMade
          cases hMade.1
      exact ⟨x, hSame.trans hFile⟩
    · exact h'.files p hp
  elsewhere q hq := by
    rw [List.mem_append, not_or] at hq
    rcases h'.elsewhere q hq.2 with hSame | ⟨hNone, hDirectory, p, hp, hPrefix⟩
    · rw [hSame]
      exact (h.elsewhere q hq.1).imp_right fun ⟨hNone, hDirectory, p, hp, hPrefix⟩ =>
        ⟨hNone, hDirectory, p, List.mem_append_left qs hp, hPrefix⟩
    · rcases h.elsewhere q hq.1 with hSame | ⟨-, hMade, -⟩
      · exact .inr ⟨hSame.symm.trans hNone, hDirectory, p, List.mem_append_right ps hp, hPrefix⟩
      · rw [hNone] at hMade
        cases hMade

theorem modify (h : t.Laid ps c t') (hp : p ∈ ps) (f : Bytes → Bytes) :
    t.Laid ps (fun q => if q = p then f (c q) else c q) (t'.modify p f) := by
  obtain ⟨x, hFile⟩ := h.files p hp
  have hModify := find?_modify hFile f
  constructor
  · intro q hq
    rw [hModify]
    by_cases hSame : q = p
    · subst hSame
      exact ⟨x, by rw [if_pos rfl, if_pos rfl]⟩
    · obtain ⟨y, hOther⟩ := h.files q hq
      exact ⟨y, by rw [if_neg hSame, if_neg hSame, hOther]⟩
  · intro q hq
    have hOther : q ≠ p := by
      rintro rfl
      exact hq hp
    rw [hModify, if_neg hOther]
    exact h.elsewhere q hq

end Laid

/-- Neither of the places is on the way to the other. -/
def Apart (p q : Place) : Prop := ¬ p <+: q ∧ ¬ q <+: p

instance (p q : Place) : Decidable (Apart p q) := inferInstanceAs (Decidable (¬ p <+: q ∧ ¬ q <+: p))

theorem Apart.ne (h : Apart p q) : p ≠ q := by
  rintro rfl
  exact h.1 List.prefix_rfl

theorem Openable.laid (h : t.Openable p) (hLaid : t.Laid ps c t') (hApart : ∀ q ∈ ps, Apart q p) : t'.Openable p := by
  have hSame : t'.find? p = t.find? p := by
    refine (hLaid.elsewhere p fun hp => (hApart p hp).1 List.prefix_rfl).resolve_right ?_
    rintro ⟨-, -, q, hq, hPrefix⟩
    exact (hApart q hq).2 hPrefix
  rcases h with hFile | ⟨hNone, hAbove⟩
  · exact .inl (hSame ▸ hFile)
  · refine .inr ⟨hSame.trans hNone, fun q hPrefix hOther => ?_⟩
    rcases hLaid.elsewhere q fun hq => (hApart q hq).1 hPrefix with hKept | ⟨-, hDirectory, -⟩
    · exact hKept ▸ hAbove q hPrefix hOther
    · exact .inr hDirectory

/-- What a file that is opened for writing holds then. -/
def kept (t : FileTree) (appends : Bool) (p : Place) : Bytes := if appends then t.content p else []

theorem kept_congr (h : t'.find? p = t.find? p) (appends : Bool) : t'.kept appends p = t.kept appends p := by
  simp [kept, FileTree.content, read?, h]

end FileTree

namespace Memory

open FileTree

variable {t t' t₁ : FileTree} {path : String} {paths : List String} {appends : Bool} {c : Place → Bytes}

theorem touch_laid (h : t.Openable (place path)) (verb : String) :
    ∃ t', touch verb t path = .ok t' ∧ t.Laid [place path] t.content t' := by
  unfold touch
  dsimp only
  cases hFind : t.find? (place path) with
  | some node =>
    obtain ⟨data, x, hFile⟩ := h.resolve_right fun hNone => by rw [hFind] at hNone; cases hNone.1
    refine ⟨t, rfl, ?_, fun q _ => .inl rfl⟩
    simp [FileTree.content, read?, hFile]
  | none =>
    obtain ⟨t₁, hMade, hElse⟩ := h.makeAll hFind
    have hPut := find?_put t₁ (place path)
    refine ⟨t₁.put (place path) (.file [] false), ?_, ?_, fun q hq => ?_⟩
    · rw [hMade]
    · refine List.forall_mem_singleton.mpr ⟨false, ?_⟩
      rw [hPut _ _ h.ne_nil, if_pos rfl]
      simp [FileTree.content, read?, hFind]
    · rw [hPut _ _ h.ne_nil, if_neg (by simpa using hq)]
      rcases hElse q with hSame | ⟨hNone, hDirectory, hPrefix⟩
      · exact .inl hSame
      · exact .inr ⟨hNone, hDirectory, place path, List.mem_singleton_self _, hPrefix⟩

def writer (appends : Bool) (t : FileTree) (path : String) : Except Fault FileTree :=
  if appends then append t path else create t path

theorem writer_laid (h : t.Openable (place path)) (appends : Bool) :
    ∃ t', writer appends t path = .ok t' ∧ t.Laid [place path] (t.kept appends) t' := by
  cases appends with
  | true =>
    obtain ⟨t', hTouch, hLaid⟩ := touch_laid h "append"
    have hFile : t.isDirectory (place path) = false := beq_eq_false_iff_ne.mpr h.not_directory
    refine ⟨t', ?_, hLaid⟩
    change append t path = _
    unfold append
    rw [List.getLast?_eq_some_getLast h.ne_nil, hFile]
    exact hTouch
  | false =>
    obtain ⟨t', hTouch, hLaid⟩ := touch_laid h "create"
    refine ⟨_, ?_, (hLaid.modify (List.mem_singleton_self _) fun _ => []).congr ?_⟩
    · change create t path = _
      rw [create, hTouch]
      rfl
    · simp [kept]

/-- Opens the files at `paths` for writing, one after the other. -/
def writers (appends : Bool) (t : FileTree) (paths : List String) : Except Fault FileTree :=
  paths.foldlM (writer appends) t

/-- At each of the paths there is a file or one can be made, when its turn to be opened comes. -/
def OpenInTurn (appends : Bool) (t : FileTree) (paths : List String) : Prop :=
  ∀ before path after, paths = before ++ path :: after → ∀ t', writers appends t before = .ok t' →
    t'.Openable (place path)

theorem writers_concat {paths : List String} (h : writers appends t paths = .ok t₁) (path : String) :
    writers appends t (paths ++ [path]) = writer appends t₁ path := by
  have hLast : writers appends t₁ [path] = writer appends t₁ path := by
    rw [writers, List.foldlM_cons]
    exact bind_pure _
  rw [writers, List.foldlM_append, show paths.foldlM (writer appends) t = .ok t₁ from h]
  exact hLast

/-- Files that have been laid open are as they were asked for, and so are those that are opened after them. -/
theorem writers_append {done paths : List String} (hDone : writers appends t done = .ok t₁)
    (hLaid : t.Laid (done.map place) (t.kept appends) t₁) (hNodup : ((done ++ paths).map place).Nodup)
    (h : OpenInTurn appends t (done ++ paths)) :
    ∃ t', writers appends t (done ++ paths) = .ok t' ∧ t.Laid ((done ++ paths).map place) (t.kept appends) t' := by
  induction paths generalizing done t₁ with
  | nil =>
    rw [List.append_nil]
    exact ⟨t₁, hDone, hLaid⟩
  | cons path paths ih =>
    have hNext : done ++ path :: paths = done ++ [path] ++ paths := by simp
    have hOpen := h done path paths rfl t₁ hDone
    have hNew : place path ∉ done.map place := by
      rw [List.map_append, List.map_cons] at hNodup
      exact fun hMem => (List.nodup_append.mp hNodup).2.2 _ hMem _ List.mem_cons_self rfl
    obtain ⟨t₂, hWriter, hPath⟩ := writer_laid hOpen appends
    have hKept : t₁.kept appends (place path) = t.kept appends (place path) :=
      kept_congr (hLaid.find?_eq hNew hOpen) appends
    have hBoth : t.Laid ((done ++ [path]).map place) (t.kept appends) t₂ := by
      rw [List.map_append]
      refine hLaid.trans (hPath.congr (by simpa using hKept)) fun p hp hSame => ?_
      obtain rfl : p = place path := by simpa using hSame
      exact hNew hp
    rw [hNext] at hNodup h ⊢
    exact ih ((writers_concat hDone path).trans hWriter) hBoth hNodup h

theorem writers_laid {paths : List String} (hNodup : (paths.map place).Nodup) (h : OpenInTurn appends t paths) :
    ∃ t', writers appends t paths = .ok t' ∧ t.Laid (paths.map place) (t.kept appends) t' := by
  have hNone : writers appends t [] = .ok t := rfl
  exact writers_append hNone ⟨fun _ hp => absurd hp List.not_mem_nil, fun _ _ => .inl rfl⟩ hNodup h

/-- Files that can be opened, none of them on the way to another, can all be opened one after the other. -/
theorem openInTurn_of_apart {paths : List String} (h : ∀ path ∈ paths, t.Openable (place path))
    (hApart : (paths.map place).Pairwise Apart) : OpenInTurn appends t paths := by
  induction paths using List.reverseRecOn with
  | nil => exact fun before path after hSplit => by simp at hSplit
  | append_singleton paths last ih =>
    rw [List.map_append, List.pairwise_append] at hApart
    have hTurns := ih (fun path hPath => h path (List.mem_append_left _ hPath)) hApart.1
    have hNodup : (paths.map place).Nodup := hApart.1.imp Apart.ne
    intro before path after hSplit t' hBefore
    rcases List.eq_nil_or_concat' after with rfl | ⟨after, other, rfl⟩
    · obtain ⟨rfl, hLast⟩ := List.append_inj' hSplit rfl
      obtain rfl : last = path := List.singleton_inj.mp hLast
      obtain ⟨t'', hOpened, hLaid⟩ := writers_laid hNodup hTurns
      obtain rfl : t' = t'' := Except.ok.inj (hBefore.symm.trans hOpened)
      exact (h last (by simp)).laid hLaid fun q hq => hApart.2.2 q hq _ (List.mem_singleton_self _)
    · rw [← List.cons_append, ← List.append_assoc] at hSplit
      exact hTurns before path after (List.append_inj' hSplit rfl).1 t' hBefore

/-- Closes writers of `paths` that were each given `data`. -/
def commitAll (data : Bytes) (paths : List String) (t : FileTree) : FileTree :=
  paths.foldl (fun t path => commit t path data) t

theorem commitAll_laid {ps : List Place} {paths : List String} (h : t.Laid ps c t') (hNodup : (paths.map place).Nodup)
    (hMem : ∀ path ∈ paths, place path ∈ ps) (data : Bytes) :
    t.Laid ps (fun p => if p ∈ paths.map place then c p ++ data else c p) (commitAll data paths t') := by
  induction paths generalizing t' c with
  | nil => exact h.congr fun p _ => by simp
  | cons path paths ih =>
    obtain ⟨hNew, hNodup⟩ := List.nodup_cons.mp hNodup
    obtain ⟨hPath, hMem⟩ := List.forall_mem_cons.mp hMem
    refine (ih (h.modify hPath (· ++ data)) hNodup hMem).congr fun p _ => ?_
    by_cases hSame : p = place path
    · subst hSame
      simp [hNew]
    · simp [hSame]

theorem commitAll_places (hNodup : (paths.map place).Nodup) (h : t.Laid (paths.map place) c t') (data : Bytes) :
    t.Laid (paths.map place) (fun p => c p ++ data) (commitAll data paths t') :=
  (commitAll_laid h hNodup (fun _ hPath => List.mem_map_of_mem hPath) data).congr fun _ hp => if_pos hp

end Memory

end Pipework
