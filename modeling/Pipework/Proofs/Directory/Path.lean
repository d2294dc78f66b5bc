import Pipework.Path

/-!
# Paths that start at the root

A path leads from one place to another, a component at a time. Cleaning a path that starts at the root keeps the
place to which it leads, and two paths one after the other lead where the two do that are joined by a slash, whatever
components they have.
-/

namespace Pipework.Path

/-- What can stand in a cleaned path that starts at the root. -/
structure IsName (part : String) : Prop where
  ne_empty : part ≠ ""
  ne_dot : part ≠ "."
  ne_dots : part ≠ ".."
  slash_not_mem : '/' ∉ part.toList

/-- The place to which `path` leads from the place `names`. -/
def enter (names : List String) (path : String) : List String :=
  ((parts path).foldl (push true) names.reverse).reverse

def rooted (names : List String) : String := "/" ++ "/".intercalate names

theorem splitAt_ne_nil (sep : Char) (cs : List Char) : splitAt sep cs ≠ [] := by
  cases cs with
  | nil => simp [splitAt]
  | cons c cs =>
    unfold splitAt
    split
    · simp
    · split <;> simp

theorem splitAt_append (sep : Char) (cs ds : List Char) :
    splitAt sep (cs ++ sep :: ds) = splitAt sep cs ++ splitAt sep ds := by
  induction cs with
  | nil => simp [splitAt]
  | cons c cs ih =>
    rw [List.cons_append, splitAt, splitAt, ih]
    split
    · rfl
    · cases hSplit : splitAt sep cs with
      | nil => exact absurd hSplit (splitAt_ne_nil sep cs)
      | cons part rest => rfl

theorem splitAt_of_not_mem {sep : Char} {cs : List Char} (h : sep ∉ cs) : splitAt sep cs = [cs] := by
  induction cs with
  | nil => rfl
  | cons c cs ih =>
    obtain ⟨hFirst, hRest⟩ : ¬sep = c ∧ sep ∉ cs := by simpa using h
    rw [splitAt, if_neg (Ne.symm hFirst), ih hRest]

theorem not_mem_of_mem_splitAt {sep : Char} {cs part : List Char} (h : part ∈ splitAt sep cs) : sep ∉ part := by
  induction cs generalizing part with
  | nil =>
    rw [List.mem_singleton.mp h]
    exact List.not_mem_nil
  | cons c cs ih =>
    unfold splitAt at h
    split at h
    · rcases List.mem_cons.mp h with rfl | hLater
      · exact List.not_mem_nil
      · exact ih hLater
    · next hOther =>
      cases hSplit : splitAt sep cs with
      | nil => exact absurd hSplit (splitAt_ne_nil sep cs)
      | cons first rest =>
        rw [hSplit] at h ih
        rcases List.mem_cons.mp h with rfl | hLater
        · have hFirst : sep ∉ first := ih List.mem_cons_self
          simpa [hFirst] using Ne.symm hOther
        · exact ih (List.mem_cons_of_mem first hLater)

theorem parts_slash (a b : String) : parts (a ++ "/" ++ b) = parts a ++ parts b := by
  unfold parts
  rw [← List.map_append, ← splitAt_append]
  simp

theorem parts_of_slash_not_mem {part : String} (h : '/' ∉ part.toList) : parts part = [part] := by
  unfold parts
  rw [splitAt_of_not_mem h]
  simp

theorem slash_not_mem_of_mem_parts {path part : String} (h : part ∈ parts path) : '/' ∉ part.toList := by
  obtain ⟨cs, hMem, rfl⟩ := List.mem_map.mp h
  rw [String.toList_ofList]
  exact not_mem_of_mem_splitAt hMem

theorem parts_rooted {names : List String} (h : ∀ name ∈ names, IsName name) :
    parts (rooted names) = "" :: if names = [] then [""] else names := by
  have hFirst : ∀ body, parts ("/" ++ body) = "" :: parts body := fun body => parts_slash "" body
  rw [rooted, hFirst]
  congr 1
  induction names with
  | nil => rfl
  | cons name names ih =>
    obtain ⟨hName, hNames⟩ := List.forall_mem_cons.mp h
    have hAlone := parts_of_slash_not_mem hName.slash_not_mem
    cases names with
    | nil => simpa using hAlone
    | cons next names =>
      rw [String.intercalate_cons_cons, parts_slash, hAlone, ih hNames]
      rfl

theorem push_of_isName {part : String} (h : IsName part) (done : List String) : push true done part = part :: done := by
  unfold push
  rw [if_neg (by simp [h.ne_empty, h.ne_dot]), if_neg h.ne_dots]

theorem push_isName {done : List String} (h : ∀ name ∈ done, IsName name) {part : String} (hPart : '/' ∉ part.toList) :
    ∀ name ∈ push true done part, IsName name := by
  unfold push
  split
  · exact h
  · next hPlain =>
    have hKind : part ≠ "" ∧ part ≠ "." := by simpa using hPlain
    split
    · cases done with
      | nil => simp
      | cons last before =>
        obtain ⟨hLast, hBefore⟩ := List.forall_mem_cons.mp h
        simpa [hLast.ne_dots] using hBefore
    · next hDots => exact List.forall_mem_cons.mpr ⟨⟨hKind.1, hKind.2, hDots, hPart⟩, h⟩

theorem enter_isName {names : List String} (h : ∀ name ∈ names, IsName name) (path : String) :
    ∀ name ∈ enter names path, IsName name := by
  have hFold : ∀ (ps done : List String), (∀ name ∈ done, IsName name) → (∀ part ∈ ps, '/' ∉ part.toList) →
      ∀ name ∈ ps.foldl (push true) done, IsName name := by
    intro ps
    induction ps with
    | nil => exact fun done hDone _ => hDone
    | cons part ps ih =>
      intro done hDone hParts
      obtain ⟨hFirst, hRest⟩ := List.forall_mem_cons.mp hParts
      exact ih _ (push_isName hDone hFirst) hRest
  intro name hName
  refine hFold (parts path) names.reverse (by simpa using h) (fun _ => slash_not_mem_of_mem_parts) name ?_
  exact List.mem_reverse.mp hName

theorem fromRoot_eq_enter (path : String) : fromRoot path = enter [] path := rfl

theorem enter_empty (names : List String) : enter names "" = names := by
  have hParts : parts "" = [""] := rfl
  rw [enter, hParts]
  exact List.reverse_reverse names

theorem enter_slash (names : List String) (a b : String) : enter names (a ++ "/" ++ b) = enter (enter names a) b := by
  rw [enter, parts_slash, List.foldl_append, enter, enter, List.reverse_reverse]

theorem enter_rooted {names : List String} (h : ∀ name ∈ names, IsName name) : fromRoot (rooted names) = names := by
  have hFold : ∀ (ns done : List String), (∀ name ∈ ns, IsName name) →
      ns.foldl (push true) done = ns.reverse ++ done := by
    intro ns
    induction ns with
    | nil => exact fun _ _ => rfl
    | cons n ns ih =>
      intro done hNames
      obtain ⟨hFirst, hRest⟩ := List.forall_mem_cons.mp hNames
      rw [List.foldl_cons, push_of_isName hFirst, ih _ hRest]
      simp
  rw [fromRoot_eq_enter, enter, parts_rooted h, List.foldl_cons]
  have hSkip : ∀ done, push true done "" = done := fun done => rfl
  rw [hSkip]
  split
  · next hNil =>
    rw [hNil]
    rfl
  · rw [List.reverse_nil, hFold names [] h]
    simp

theorem isAbsolute_rooted (names : List String) : isAbsolute (rooted names) = true := by
  simp [isAbsolute, rooted]

theorem isAbsolute_slash {a : String} (h : a ≠ "") (b : String) : isAbsolute (a ++ "/" ++ b) = isAbsolute a := by
  have hList : a.toList ≠ [] := by simpa using h
  obtain ⟨first, rest, hCons⟩ := List.exists_cons_of_ne_nil hList
  simp [isAbsolute, hCons]

theorem clean_of_isAbsolute {path : String} (h : isAbsolute path = true) : clean path = rooted (fromRoot path) := by
  unfold clean
  rw [h]
  rfl

theorem join_of_isAbsolute {dir : String} (h : isAbsolute dir = true) (name : String) :
    join dir name = rooted (enter (fromRoot dir) name) := by
  have hDir : dir ≠ "" := by
    rintro rfl
    cases h
  unfold join
  rw [if_neg (by simp [hDir]), if_neg hDir]
  split
  · next hName => rw [hName, enter_empty, clean_of_isAbsolute h]
  · rw [clean_of_isAbsolute ((isAbsolute_slash hDir name).trans h), fromRoot_eq_enter, enter_slash, fromRoot_eq_enter]

/-- Where `cd path` leads from the directory `dir`, or from the directory `base` of the host if none is set. -/
def heading (base dir path : String) : String :=
  if isAbsolute path then clean path else if dir ≠ "" then join dir path else join base path

def headingPlace (base dir path : String) : List String :=
  enter (if isAbsolute path then [] else fromRoot (if dir ≠ "" then dir else base)) path

section Heading

variable {base dir : String} (hBase : isAbsolute base = true) (hDir : dir = "" ∨ isAbsolute dir = true)

include hBase hDir

theorem heading_eq (path : String) : heading base dir path = rooted (headingPlace base dir path) := by
  unfold heading headingPlace
  split
  · next hPath => rw [clean_of_isAbsolute hPath, fromRoot_eq_enter]
  · split
    · next hSet => exact join_of_isAbsolute (hDir.resolve_left hSet) path
    · exact join_of_isAbsolute hBase path

omit hBase hDir in
theorem headingPlace_isName (path : String) : ∀ name ∈ headingPlace base dir path, IsName name := by
  refine enter_isName ?_ path
  split
  · exact fun _ hNone => absurd hNone List.not_mem_nil
  · exact enter_isName (fun _ hNone => absurd hNone List.not_mem_nil) _

/-- Two changes of the directory one after the other lead where one does. -/
theorem heading_heading {first second : String} (hFirst : first ≠ "") (hSecond : isAbsolute second = false) :
    heading base (heading base dir first) second = heading base dir (first ++ "/" ++ second) := by
  have hMiddle := heading_eq hBase hDir first
  have hAbsolute : isAbsolute (heading base dir first) = true := by
    rw [hMiddle]
    exact isAbsolute_rooted _
  have hSet : heading base dir first ≠ "" := by
    intro hEmpty
    rw [hEmpty] at hAbsolute
    cases hAbsolute
  have hFrom : fromRoot (heading base dir first) = headingPlace base dir first := by
    rw [hMiddle, enter_rooted (headingPlace_isName first)]
  have hTwo : headingPlace base (heading base dir first) second = enter (headingPlace base dir first) second := by
    rw [headingPlace, hSecond, if_pos hSet, hFrom]
    rfl
  have hOne : headingPlace base dir (first ++ "/" ++ second) = enter (headingPlace base dir first) second := by
    rw [headingPlace, isAbsolute_slash hFirst, enter_slash]
    rfl
  calc heading base (heading base dir first) second
    _ = rooted (headingPlace base (heading base dir first) second) := heading_eq hBase (.inr hAbsolute) second
    _ = rooted (headingPlace base dir (first ++ "/" ++ second)) := by rw [hTwo, hOne]
    _ = heading base dir (first ++ "/" ++ second) := (heading_eq hBase hDir _).symm

end Heading

end Pipework.Path
