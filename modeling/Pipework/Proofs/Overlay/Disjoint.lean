import Mathlib.Data.List.Forall2
import Pipework.Proofs.Overlay.Scopes

/-!
# Scopes that change different variables

Scopes on one overlay whose changes are of different variables do not disturb each other. For each variable
there is one scope at most that has saved it, so that what the overlay and this scope hold for it is what
they would hold if nothing were done through the others. Then every variable gets back what it had, in whatever
order the scopes are restored.
-/

namespace Pipework

namespace Scope

/-- What is done through a scope. -/
inductive Use where
  | assigns (key : String) (value : Option String)
  | looks (key : String)
  | restores
deriving DecidableEq

def use (s : Scope) (o : Overlay) : Use → Scope × Overlay
  | .assigns key value => s.assign o key value
  | .looks _ => (s, o)
  | .restores => s.restore o

def found (o : Overlay) (env : Table) : Use → Option (String × Option String)
  | .looks key => some (key, lookupThrough o env key)
  | _ => none

/-- The scope and the overlay after `uses`, when there is no other scope. -/
def useAll (s : Scope) (o : Overlay) (uses : List Use) : Scope × Overlay :=
  uses.foldl (fun now u => now.1.use now.2 u) (s, o)

/-- What is found by the lookups of `uses`, when there is no other scope. -/
def foundAll (env : Table) (s : Scope) (o : Overlay) : List Use → List (String × Option String)
  | [] => []
  | u :: uses => (found o env u).toList ++ foundAll env (s.use o u).1 (s.use o u).2 uses

@[simp] theorem useAll_cons (s : Scope) (o : Overlay) (u : Use) (uses : List Use) :
    s.useAll o (u :: uses) = (s.use o u).1.useAll (s.use o u).2 uses := rfl

theorem find?_use (s : Scope) (o : Overlay) (u : Use) (key : String) :
    (s.use o u).2.find? key =
      match u with
      | .assigns k value => if key = k then value else o.find? key
      | .looks _ => o.find? key
      | .restores => (s.prior? key).getD (o.find? key) := by
  cases u with
  | assigns k value => exact Table.find?_assign k key value o
  | looks k => rfl
  | restores => exact s.find?_restore o key

theorem prior?_use (s : Scope) (o : Overlay) (u : Use) (key : String) :
    (s.use o u).1.prior? key =
      match u with
      | .assigns k _ => if key = k then (s.prior? key).or (some (o.find? key)) else s.prior? key
      | .looks _ => s.prior? key
      | .restores => none := by
  cases u with
  | assigns k value =>
    refine (s.prior?_save o k key).trans ?_
    by_cases hKey : key = k
    · simp only [hKey]
    · simp only [if_neg hKey]
  | looks k => rfl
  | restores => rfl

/-- What restoring the scope would leave is not altered through the scope. -/
theorem find?_restore_use (s : Scope) (o : Overlay) (u : Use) (key : String) :
    ((s.use o u).1.restore (s.use o u).2).2.find? key = (s.restore o).2.find? key := by
  rw [find?_restore, find?_restore, prior?_use, find?_use]
  cases u with
  | assigns k value =>
    by_cases hKey : key = k
    · simp only [if_pos hKey]
      cases s.prior? key <;> rfl
    · simp only [if_neg hKey]
  | looks k => rfl
  | restores => rfl

theorem find?_restore_useAll (s : Scope) (o : Overlay) (uses : List Use) (key : String) :
    ((s.useAll o uses).1.restore (s.useAll o uses).2).2.find? key = (s.restore o).2.find? key := by
  induction uses generalizing s o with
  | nil => rfl
  | cons u uses ih => rw [useAll_cons, ih, find?_restore_use]

end Scope

namespace Scoped

variable {n : Nat}

def onto (n : Nat) (o : Overlay) : Scoped := run o (List.replicate n .opens)

/-- After `uses` of the scopes, in the order in which they take effect. -/
def useAll (s : Scoped) (uses : List (Fin n × Scope.Use)) : Scoped :=
  uses.foldl (fun s u => s.through u.1 fun scope o => scope.use o u.2) s

def own (i : Fin n) (uses : List (Fin n × Scope.Use)) : List Scope.Use :=
  uses.filterMap fun u => if u.1 = i then some u.2 else none

/-- What is found by the lookups through the scope `i`. -/
def foundAll (env : Table) (i : Fin n) (s : Scoped) : List (Fin n × Scope.Use) → List (String × Option String)
  | [] => []
  | u :: uses =>
    (if u.1 = i then (Scope.found s.overlay env u.2).toList else []) ++ foundAll env i (s.useAll [u]) uses

def Changes (uses : List (Fin n × Scope.Use)) (i : Fin n) (key : String) : Prop :=
  ∃ value, (i, .assigns key value) ∈ uses

theorem onto_eq (n : Nat) (o : Overlay) : onto n o = ⟨o, List.replicate n .opened⟩ := by
  induction n with
  | zero => rfl
  | succ n ih =>
    rw [onto, List.replicate_succ', run_concat, ← onto, ih, List.replicate_succ']
    rfl

theorem Changes.cons {uses : List (Fin n × Scope.Use)} {i : Fin n} {key : String} (h : Changes uses i key)
    (u : Fin n × Scope.Use) : Changes (u :: uses) i key := by
  obtain ⟨value, hMem⟩ := h
  exact ⟨value, List.mem_cons_of_mem u hMem⟩

/-- With regard to `key`, the overlay and the scope `i` are as the overlay `o` and the scope `alone`, and no
other scope would restore anything. -/
structure Abreast (key : String) (i : Nat) (s : Scoped) (alone : Scope) (o : Overlay) : Prop where
  value : s.overlay.find? key = o.find? key
  saved : ∃ scope, s.scopes[i]? = some scope ∧ scope.prior? key = alone.prior? key
  others : ∀ j scope, j ≠ i → s.scopes[j]? = some scope → scope.prior? key = none

section Step

variable {key : String} {i : Nat} {s : Scoped} {alone : Scope} {o : Overlay}

theorem abreast_onto {i : Fin n} (key : String) (o : Overlay) : Abreast key i (onto n o) .opened o := by
  rw [onto_eq]
  constructor
  · rfl
  · exact ⟨.opened, List.getElem?_replicate_of_lt i.isLt, rfl⟩
  · intro j scope _ hScope
    rw [List.eq_of_mem_replicate (List.mem_of_getElem? hScope)]
    rfl

theorem Abreast.use (h : Abreast key i s alone o) (u : Scope.Use) :
    Abreast key i (s.through i fun scope o => scope.use o u) (alone.use o u).1 (alone.use o u).2 := by
  obtain ⟨scope, hScope, hPrior⟩ := h.saved
  obtain ⟨hOpen, -⟩ := List.getElem?_eq_some_iff.mp hScope
  rw [through_of_scope hScope]
  constructor
  · show (scope.use s.overlay u).2.find? key = _
    rw [Scope.find?_use, Scope.find?_use, h.value, hPrior]
  · refine ⟨_, List.getElem?_set_self hOpen, ?_⟩
    rw [Scope.prior?_use, Scope.prior?_use, h.value, hPrior]
  · intro j other hj hOther
    rw [List.getElem?_set_ne hj.symm] at hOther
    exact h.others j other hj hOther

theorem Abreast.other (h : Abreast key i s alone o) {j : Nat} (hj : j ≠ i) {u : Scope.Use}
    (hu : ∀ value, u ≠ .assigns key value) :
    Abreast key i (s.through j fun scope o => scope.use o u) alone o := by
  cases hOther : s.scopes[j]? with
  | none =>
    rw [through, hOther]
    exact h
  | some other =>
    have hPrior := h.others j other hj hOther
    obtain ⟨hOpen, -⟩ := List.getElem?_eq_some_iff.mp hOther
    -- What is done through the other scope neither changes the variable nor restores it.
    have hValue : (other.use s.overlay u).2.find? key = s.overlay.find? key := by
      rw [Scope.find?_use]
      cases u with
      | assigns k value => exact if_neg fun hKey => hu value (by rw [hKey])
      | looks k => rfl
      | restores => rw [hPrior, Option.getD_none]
    have hSaved : (other.use s.overlay u).1.prior? key = none := by
      rw [Scope.prior?_use]
      cases u with
      | assigns k value => exact (if_neg fun hKey => hu value (by rw [hKey])).trans hPrior
      | looks k => exact hPrior
      | restores => rfl
    constructor
    · rw [through_of_scope hOther]
      exact hValue.trans h.value
    · rw [scope_through_ne hj]
      exact h.saved
    · intro k scope hk hScope
      by_cases hSame : k = j
      · rw [through_of_scope hOther, hSame, List.getElem?_set_self hOpen] at hScope
        exact Option.some.inj hScope ▸ hSaved
      · rw [scope_through_ne (Ne.symm hSame)] at hScope
        exact h.others k scope hk hScope

end Step

section Run

variable {i : Fin n} {s : Scoped} {alone : Scope} {o : Overlay}

theorem own_cons_self (i : Fin n) (u : Scope.Use) (uses : List (Fin n × Scope.Use)) :
    own i ((i, u) :: uses) = u :: own i uses :=
  List.filterMap_cons_some (if_pos rfl)

theorem own_cons_other {i j : Fin n} (h : j ≠ i) (u : Scope.Use) (uses : List (Fin n × Scope.Use)) :
    own i ((j, u) :: uses) = own i uses :=
  List.filterMap_cons_none (if_neg h)

/-- As long as a variable is changed through one scope only, it has for this scope the values that it has when
the others are left out. -/
theorem Abreast.useAll {key : String} {uses : List (Fin n × Scope.Use)} (h : Abreast key i s alone o)
    (hOnly : ∀ j, Changes uses j key → j = i) :
    Abreast key i (s.useAll uses) (alone.useAll o (own i uses)).1 (alone.useAll o (own i uses)).2 := by
  induction uses generalizing s alone o with
  | nil => exact h
  | cons u uses ih =>
    obtain ⟨j, u⟩ := u
    have hRest : ∀ k, Changes uses k key → k = i := fun k hChanges => hOnly k (hChanges.cons _)
    by_cases hj : j = i
    · subst hj
      rw [own_cons_self]
      exact ih (h.use u) hRest
    · rw [own_cons_other hj]
      refine ih (h.other (Fin.val_ne_of_ne hj) ?_) hRest
      rintro value rfl
      exact hj (hOnly j ⟨value, List.mem_cons_self⟩)

/-- What is found for the variables in `mine`, which no other scope changes, is found without the others. -/
theorem found_agrees {uses : List (Fin n × Scope.Use)} {mine : String → Prop}
    (h : ∀ key, mine key → Abreast key i s alone o) (hMine : ∀ key, mine key → ∀ j, Changes uses j key → j = i)
    (env : Table) :
    List.Forall₂ (fun a b => a.1 = b.1 ∧ (mine a.1 → a.2 = b.2)) (foundAll env i s uses)
      (Scope.foundAll env alone o (own i uses)) := by
  induction uses generalizing s alone o with
  | nil => exact .nil
  | cons u uses ih =>
    obtain ⟨j, u⟩ := u
    have hRest : ∀ key, mine key → ∀ k, Changes uses k key → k = i :=
      fun key hKey k hChanges => hMine key hKey k (hChanges.cons _)
    by_cases hj : j = i
    · subst hj
      rw [own_cons_self, foundAll, if_pos rfl, Scope.foundAll]
      apply List.rel_append
      · cases u with
        | looks key =>
          refine .cons ⟨rfl, fun hKey => ?_⟩ .nil
          show lookupThrough s.overlay env key = lookupThrough o env key
          rw [lookupThrough, lookupThrough, (h key hKey).value]
        | assigns key value => exact .nil
        | restores => exact .nil
      · exact ih (fun key hKey => (h key hKey).use u) hRest
    · rw [own_cons_other hj, foundAll, if_neg hj, List.nil_append]
      refine ih (fun key hKey => (h key hKey).other (Fin.val_ne_of_ne hj) ?_) hRest
      rintro value rfl
      exact hj (hMine key hKey j ⟨value, List.mem_cons_self⟩)

/-- A scope that is restored after its last change of `key` has nothing saved for it. -/
theorem prior?_of_undone {key : String} {uses : List (Fin n × Scope.Use)}
    (hNew : alone.prior? key = none ∨ (i, .restores) ∈ uses)
    (hUndone : ∀ before value after, uses = before ++ (i, .assigns key value) :: after → (i, .restores) ∈ after) :
    (alone.useAll o (own i uses)).1.prior? key = none := by
  induction uses generalizing alone o with
  | nil => exact hNew.resolve_right List.not_mem_nil
  | cons u uses ih =>
    obtain ⟨j, u⟩ := u
    have hRest : ∀ before value after, uses = before ++ (i, .assigns key value) :: after →
        (i, .restores) ∈ after := fun before value after hSplit =>
      hUndone ((j, u) :: before) value after (by rw [hSplit, List.cons_append])
    by_cases hj : j = i
    · subst hj
      rw [own_cons_self]
      refine ih ?_ hRest
      show (alone.use o u).1.prior? key = none ∨ _
      rw [Scope.prior?_use]
      cases u with
      | assigns k value =>
        by_cases hKey : key = k
        · exact .inr (hUndone [] value uses (by rw [hKey, List.nil_append]))
        · simpa [hKey] using hNew
      | looks k => simpa using hNew
      | restores => exact .inl rfl
    · rw [own_cons_other hj]
      refine ih ?_ hRest
      have hOther : i ≠ j := Ne.symm hj
      simpa [hOther] using hNew

end Run

/-- Scopes that change different variables do not disturb each other, whatever the order is in which they are
used. Each of them finds for a variable, as long as no other changes it, what it would find if it were the only
scope. And a variable has its first value again once every change of it was followed by a restoration of the
scope that made it; in which order the scopes are restored does not matter. -/
theorem disjoint_undisturbed (o : Overlay) (env : Table) (uses : List (Fin n × Scope.Use))
    (hDisjoint : ∀ i j key, Changes uses i key → Changes uses j key → i = j) :
    (∀ i, List.Forall₂ (fun a b => a.1 = b.1 ∧ ((∀ j, Changes uses j a.1 → j = i) → a.2 = b.2))
      (foundAll env i (onto n o) uses) (Scope.foundAll env .opened o (own i uses))) ∧
    ∀ key, (∀ before i value after, uses = before ++ (i, .assigns key value) :: after → (i, .restores) ∈ after) →
      ((onto n o).useAll uses).overlay.find? key = o.find? key := by
  constructor
  · intro i
    exact found_agrees (fun key _ => abreast_onto key o) (fun key hKey => hKey) env
  · intro key hUndone
    rcases uses with _ | ⟨first, rest⟩
    · exact (onto_eq n o).symm ▸ rfl
    · -- The scope that changes the variable; any, if none does.
      obtain ⟨i, hOnly⟩ : ∃ i, ∀ j, Changes (first :: rest) j key → j = i := by
        by_cases hSome : ∃ i, Changes (first :: rest) i key
        · obtain ⟨i, hChanges⟩ := hSome
          exact ⟨i, fun j hj => hDisjoint j i key hj hChanges⟩
        · exact ⟨first.1, fun j hj => absurd ⟨j, hj⟩ hSome⟩
      have hAbreast := (abreast_onto key o).useAll hOnly
      have hPrior : (Scope.useAll .opened o (own i (first :: rest))).1.prior? key = none :=
        prior?_of_undone (.inl rfl) fun before => hUndone before i
      have hRestored := Scope.find?_restore_useAll .opened o (own i (first :: rest)) key
      rw [Scope.find?_restore, Scope.find?_restore, hPrior, Scope.prior?_opened] at hRestored
      exact hAbreast.value.trans hRestored

/-- Two scopes in turn: the first is restored while the second is in use, and used again. -/
def crossing : List (Fin 2 × Scope.Use) :=
  [(0, .assigns "A" (some "1")), (1, .assigns "B" none), (0, .looks "A"), (1, .looks "B"), (0, .restores),
    (1, .assigns "B" (some "2")), (0, .assigns "A" none), (1, .looks "B"), (0, .looks "A"), (1, .restores),
    (0, .restores)]

theorem changes_crossing {i : Fin 2} {key : String} (h : Changes crossing i key) :
    i = if key = "A" then 0 else 1 := by
  obtain ⟨value, hMem⟩ := h
  simp only [crossing, List.mem_cons, Prod.mk.injEq, Scope.Use.assigns.injEq, reduceCtorEq, and_false, false_or,
    List.not_mem_nil, or_false] at hMem
  rcases hMem with ⟨rfl, rfl, -⟩ | ⟨rfl, rfl, -⟩ | ⟨rfl, rfl, -⟩ | ⟨rfl, rfl, -⟩ <;> decide

theorem undisturbed_crossing :
    (∀ i j key, Changes crossing i key → Changes crossing j key → i = j) ∧
    List.Forall₂ (fun a b => a.1 = b.1 ∧ ((∀ j, Changes crossing j a.1 → j = 1) → a.2 = b.2))
      (foundAll [("B", "env")] 1 (onto 2 [("A", "0"), ("B", "0")]) crossing) [("B", some "env"), ("B", some "2")] ∧
    ((onto 2 [("A", "0"), ("B", "0")]).useAll crossing).overlay.find? "A" = some "0" := by
  have hDisjoint : ∀ i j key, Changes crossing i key → Changes crossing j key → i = j :=
    fun i j key hi hj => (changes_crossing hi).trans (changes_crossing hj).symm
  obtain ⟨hFound, hUndone⟩ := disjoint_undisturbed [("A", "0"), ("B", "0")] [("B", "env")] crossing hDisjoint
  refine ⟨hDisjoint, hFound 1, hUndone "A" ?_⟩
  intro before i value after hSplit
  have hOwner : i = 0 := changes_crossing ⟨value, hSplit ▸ List.mem_append_right _ List.mem_cons_self⟩
  have hLast : (before ++ (i, .assigns "A" value) :: after).getLast? = some (0, .restores) := hSplit ▸ rfl
  rcases List.eq_nil_or_concat after with rfl | ⟨after, last, rfl⟩
  · simp at hLast
  · rw [List.concat_eq_append, ← List.cons_append, ← List.append_assoc, List.getLast?_concat] at hLast
    simp [hOwner, Option.some.inj hLast]

/-- Two scopes that change the same variable, restored in the order in which they were opened. -/
example : ((onto 2 []).useAll [((0 : Fin 2), .assigns "A" (some "1")), (1, .assigns "A" (some "2")), (0, .restores),
    (1, .restores)]).overlay.find? "A" = some "1" := by
  decide

end Scoped

end Pipework
