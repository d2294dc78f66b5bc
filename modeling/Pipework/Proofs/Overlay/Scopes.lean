import Mathlib.Data.List.Induction
import Pipework.Overlay

/-!
# Scopes on one overlay

Any number of scopes may be open on an overlay at the same time. They are opened, change variables and are
restored in any order, and need not be nested. What a scope has saved for a variable is what the overlay
held before the first change that the scope made to it since it was opened or last restored; whatever the
others do meanwhile, this does not change. So restoring a scope undoes its own changes and nothing else.
-/

namespace Pipework

/-- What is done to an overlay through its scopes, which are numbered in the order in which they are opened. -/
inductive ScopeAct where
  | opens
  | assigns (scope : Nat) (key : String) (value : Option String)
  | restores (scope : Nat)
deriving DecidableEq

structure Scoped where
  overlay : Overlay
  scopes : List Scope
deriving DecidableEq

namespace Scoped

/-- What `f` does to the scope `i` and the overlay; through a scope that is not open nothing is done. -/
def through (s : Scoped) (i : Nat) (f : Scope → Overlay → Scope × Overlay) : Scoped :=
  match s.scopes[i]? with
  | none => s
  | some scope => ⟨(f scope s.overlay).2, s.scopes.set i (f scope s.overlay).1⟩

def act (s : Scoped) : ScopeAct → Scoped
  | .opens => { s with scopes := s.scopes ++ [.opened] }
  | .assigns i key value => s.through i fun scope o => scope.assign o key value
  | .restores i => s.through i Scope.restore

/-- The overlay `o`, on which no scope was open, after `acts`. -/
def run (o : Overlay) (acts : List ScopeAct) : Scoped := acts.foldl act ⟨o, []⟩

theorem run_concat (o : Overlay) (acts : List ScopeAct) (a : ScopeAct) :
    run o (acts ++ [a]) = (run o acts).act a := by
  simp [run]

theorem through_of_scope {s : Scoped} {i : Nat} {scope : Scope} (h : s.scopes[i]? = some scope)
    (f : Scope → Overlay → Scope × Overlay) :
    s.through i f = ⟨(f scope s.overlay).2, s.scopes.set i (f scope s.overlay).1⟩ := by
  simp [through, h]

theorem length_through (s : Scoped) (i : Nat) (f : Scope → Overlay → Scope × Overlay) :
    (s.through i f).scopes.length = s.scopes.length := by
  unfold through
  split <;> simp

theorem scope_through_ne {s : Scoped} {i j : Nat} (h : j ≠ i) (f : Scope → Overlay → Scope × Overlay) :
    (s.through j f).scopes[i]? = s.scopes[i]? := by
  unfold through
  split
  · rfl
  · exact List.getElem?_set_ne h

theorem scope_act {s : Scoped} {i : Nat} {scope : Scope} (hScope : s.scopes[i]? = some scope) {a : ScopeAct}
    (hAssigns : ∀ key value, a ≠ .assigns i key value) (hRestores : a ≠ .restores i) :
    (s.act a).scopes[i]? = some scope := by
  cases a with
  | opens =>
    obtain ⟨hLess, -⟩ := List.getElem?_eq_some_iff.mp hScope
    exact (List.getElem?_append_left hLess).trans hScope
  | assigns j key value =>
    have hOther : j ≠ i := by
      rintro rfl
      exact hAssigns key value rfl
    exact (scope_through_ne hOther _).trans hScope
  | restores j =>
    have hOther : j ≠ i := by
      rintro rfl
      exact hRestores rfl
    exact (scope_through_ne hOther _).trans hScope

/-- `past` ends with the opening of the scope `i` or with its restoration. -/
inductive Renews (o : Overlay) (i : Nat) : (past : List ScopeAct) → Prop
  | opened {past : List ScopeAct} (hNext : (run o past).scopes.length = i) : Renews o i (past ++ [.opens])
  | restored {past : List ScopeAct} (hOpen : i < (run o past).scopes.length) : Renews o i (past ++ [.restores i])

theorem Renews.scope {o : Overlay} {i : Nat} {past : List ScopeAct} (h : Renews o i past) :
    (run o past).scopes[i]? = some .opened := by
  cases h with
  | opened hNext =>
    rw [run_concat]
    simp [act, ← hNext]
  | restored hOpen =>
    rw [run_concat, act, through_of_scope (List.getElem?_eq_getElem hOpen)]
    simp [Scope.restore, hOpen]

/-- `period` is what has been done since the scope `i` was opened or last restored. -/
structure Period (o : Overlay) (i : Nat) (past period : List ScopeAct) : Prop where
  renews : Renews o i past
  unrestored : .restores i ∉ period

theorem exists_period {o : Overlay} {i : Nat} {acts : List ScopeAct} (hOpen : i < (run o acts).scopes.length) :
    ∃ past period, acts = past ++ period ∧ Period o i past period := by
  induction acts using List.reverseRecOn with
  | nil => exact absurd hOpen (Nat.not_lt_zero i)
  | append_singleton acts a ih =>
    have hExtended (hOpen : i < (run o acts).scopes.length) (hOther : a ≠ .restores i) :
        ∃ past period, acts ++ [a] = past ++ period ∧ Period o i past period := by
      obtain ⟨past, period, hActs, hRenews, hUnrestored⟩ := ih hOpen
      refine ⟨past, period ++ [a], by rw [hActs, List.append_assoc], hRenews, ?_⟩
      simpa [hUnrestored] using hOther.symm
    rw [run_concat] at hOpen
    cases a with
    | opens =>
      by_cases hNext : (run o acts).scopes.length = i
      · exact ⟨acts ++ [.opens], [], by simp, .opened hNext, by simp⟩
      · apply hExtended
        · simp only [act, List.length_append, List.length_singleton] at hOpen
          omega
        · simp
    | assigns j key value =>
      apply hExtended
      · exact length_through _ j _ ▸ hOpen
      · simp
    | restores j =>
      have hBefore : i < (run o acts).scopes.length := length_through _ j _ ▸ hOpen
      by_cases hOther : j = i
      · subst hOther
        exact ⟨acts ++ [.restores j], [], by simp, .restored hBefore, by simp⟩
      · exact hExtended hBefore (by simpa using hOther)

/-- The scope `i` has saved, for each variable that it changed during `period`, what the overlay held
immediately before the first change, and nothing for the others. -/
structure Saves (o : Overlay) (i : Nat) (past period : List ScopeAct) (scope : Scope) : Prop where
  unchanged : ∀ key, (∀ value, .assigns i key value ∉ period) → scope.prior? key = none
  changed : ∀ before key value after, period = before ++ .assigns i key value :: after →
    (∀ value, .assigns i key value ∉ before) → scope.prior? key = some ((run o (past ++ before)).overlay.find? key)

theorem Saves.other {o : Overlay} {i : Nat} {past period : List ScopeAct} {scope : Scope}
    (h : Saves o i past period scope) {a : ScopeAct} (hAssigns : ∀ key value, a ≠ .assigns i key value) :
    Saves o i past (period ++ [a]) scope := by
  constructor
  · intro key hNone
    apply h.unchanged
    intro value hMem
    exact hNone value (List.mem_append_left _ hMem)
  · intro before key value after hSplit hFirst
    rcases List.eq_nil_or_concat after with rfl | ⟨after, last, rfl⟩
    · have hLast := congrArg List.getLast? hSplit
      simp only [List.getLast?_append, List.getLast?_singleton, Option.some_or, Option.some.injEq] at hLast
      exact absurd hLast (hAssigns key value)
    · rw [List.concat_eq_append, ← List.cons_append, ← List.append_assoc] at hSplit
      exact h.changed before key value after (List.append_inj_left' hSplit rfl) hFirst

theorem Saves.assign {o : Overlay} {i : Nat} {past period : List ScopeAct} {scope : Scope}
    (h : Saves o i past period scope) (key : String) (value : Option String) :
    Saves o i past (period ++ [.assigns i key value]) (scope.save (run o (past ++ period)).overlay key) := by
  constructor
  · intro k hNone
    have hOther : k ≠ key := by
      rintro rfl
      exact hNone value (List.mem_append_right _ List.mem_cons_self)
    have hBefore : ∀ value, .assigns i k value ∉ period := fun value hMem =>
      hNone value (List.mem_append_left _ hMem)
    rw [Scope.prior?_save, if_neg hOther]
    exact h.unchanged k hBefore
  · intro before k v after hSplit hFirst
    rw [Scope.prior?_save]
    rcases List.eq_nil_or_concat after with rfl | ⟨after, last, rfl⟩
    · -- This is the first change, so nothing had been saved.
      obtain ⟨rfl, hLast⟩ := List.append_inj' hSplit rfl
      cases hLast
      rw [if_pos rfl, h.unchanged key hFirst, Option.none_or]
    · rw [List.concat_eq_append, ← List.cons_append, ← List.append_assoc] at hSplit
      have hSaved := h.changed before k v after (List.append_inj_left' hSplit rfl) hFirst
      split
      · next hSame =>
        subst hSame
        rw [hSaved, Option.some_or]
      · exact hSaved

theorem Period.saves {o : Overlay} {i : Nat} {past period : List ScopeAct} (h : Period o i past period) :
    ∃ scope, (run o (past ++ period)).scopes[i]? = some scope ∧ Saves o i past period scope := by
  obtain ⟨hRenews, hUnrestored⟩ := h
  -- The acts of the period are taken one by one; only those through the scope itself touch what it has saved.
  induction period using List.reverseRecOn with
  | nil =>
    refine ⟨.opened, by simpa using hRenews.scope, ⟨fun _ _ => rfl, ?_⟩⟩
    intro before key value after hSplit
    simp at hSplit
  | append_singleton period a ih =>
    simp only [List.mem_append, List.mem_singleton, not_or] at hUnrestored
    obtain ⟨scope, hScope, hSaves⟩ := ih hUnrestored.1
    rw [← List.append_assoc, run_concat]
    by_cases hOwn : ∃ key value, a = .assigns i key value
    · obtain ⟨key, value, rfl⟩ := hOwn
      refine ⟨scope.save (run o (past ++ period)).overlay key, ?_, hSaves.assign key value⟩
      obtain ⟨hLess, -⟩ := List.getElem?_eq_some_iff.mp hScope
      rw [act, through_of_scope hScope]
      exact List.getElem?_set_self hLess
    · have hAssigns : ∀ key value, a ≠ .assigns i key value := fun key value hEq => hOwn ⟨key, value, hEq⟩
      exact ⟨scope, scope_act hScope hAssigns (Ne.symm hUnrestored.2), hSaves.other hAssigns⟩

/-- Without a change through it, a scope that was restored stays as good as new. -/
theorem scope_run_append {o : Overlay} {i : Nat} {acts : List ScopeAct}
    (hScope : (run o acts).scopes[i]? = some .opened) {more : List ScopeAct}
    (hNone : ∀ key value, .assigns i key value ∉ more) : (run o (acts ++ more)).scopes[i]? = some .opened := by
  induction more using List.reverseRecOn with
  | nil => simpa using hScope
  | append_singleton more a ih =>
    have hBefore := ih fun key value hMem => hNone key value (List.mem_append_left _ hMem)
    rw [← List.append_assoc, run_concat]
    by_cases hRestores : a = .restores i
    · subst hRestores
      obtain ⟨hLess, -⟩ := List.getElem?_eq_some_iff.mp hBefore
      rw [act, through_of_scope hBefore]
      exact List.getElem?_set_self hLess
    · refine scope_act hBefore ?_ hRestores
      rintro key value rfl
      exact hNone key value (List.mem_append_right _ List.mem_cons_self)

theorem act_restores_of_opened {s : Scoped} {i : Nat} (h : s.scopes[i]? = some .opened) :
    s.act (.restores i) = s := by
  obtain ⟨hLess, hScope⟩ := List.getElem?_eq_some_iff.mp h
  have hSet : s.scopes.set i .opened = s.scopes := by rw [← hScope, List.set_getElem_self]
  rw [act, through_of_scope h]
  exact congrArg (Scoped.mk s.overlay) hSet

/-- Restoring a scope undoes exactly its own changes. Since the scope was opened or last restored, some
variables were changed through it: each gets back what the overlay held for it immediately before the first
of these changes. All others stay as they are, and so do the other scopes. Then the scope is as good as new:
as long as nothing is changed through it, restoring it again alters nothing, whatever is done through the
others. -/
theorem restore_undoes (o : Overlay) (acts : List ScopeAct) (i : Nat) (hOpen : i < (run o acts).scopes.length) :
    (∃ past period, acts = past ++ period ∧ Period o i past period) ∧
    (∀ past period, acts = past ++ period → Period o i past period → ∀ key,
      ((∀ value, .assigns i key value ∉ period) →
        (run o (acts ++ [.restores i])).overlay.find? key = (run o acts).overlay.find? key) ∧
      ∀ before value after, period = before ++ .assigns i key value :: after →
        (∀ value, .assigns i key value ∉ before) →
        (run o (acts ++ [.restores i])).overlay.find? key = (run o (past ++ before)).overlay.find? key) ∧
    (run o (acts ++ [.restores i])).scopes = (run o acts).scopes.set i .opened ∧
    ∀ more, (∀ key value, .assigns i key value ∉ more) →
      run o (acts ++ .restores i :: more ++ [.restores i]) = run o (acts ++ .restores i :: more) := by
  have hRestored : (run o (acts ++ [.restores i])).scopes = (run o acts).scopes.set i .opened := by
    rw [run_concat, act, through_of_scope (List.getElem?_eq_getElem hOpen)]
    rfl
  refine ⟨exists_period hOpen, ?_, hRestored, ?_⟩
  · rintro past period rfl hPeriod key
    obtain ⟨scope, hScope, hSaves⟩ := hPeriod.saves
    have hFind : (run o (past ++ period ++ [.restores i])).overlay.find? key =
        (scope.prior? key).getD ((run o (past ++ period)).overlay.find? key) := by
      rw [run_concat, act, through_of_scope hScope]
      exact scope.find?_restore _ key
    constructor
    · intro hNone
      rw [hFind, hSaves.unchanged key hNone, Option.getD_none]
    · intro before value after hSplit hFirst
      rw [hFind, hSaves.changed before key value after hSplit hFirst, Option.getD_some]
  · intro more hNone
    have hNew : (run o (acts ++ [.restores i])).scopes[i]? = some .opened := by
      rw [hRestored]
      exact List.getElem?_set_self hOpen
    have hStill := scope_run_append hNew hNone
    rw [← List.append_cons] at hStill
    exact (run_concat o _ _).trans (act_restores_of_opened hStill)

/-- Two scopes that overlap: both change the same variable, and the first is restored before the second. -/
def overlapping : List ScopeAct :=
  [.opens, .assigns 0 "A" (some "1"), .opens, .assigns 1 "A" none, .assigns 1 "A" (some "2"), .restores 0]

theorem restore_undoes_overlapping :
    1 < (run [("A", "0")] overlapping).scopes.length ∧
    (run [("A", "0")] overlapping).overlay.find? "A" = some "0" ∧
    (run [("A", "0")] (overlapping ++ [.restores 1])).overlay.find? "A" = some "1" ∧
    run [("A", "0")] (overlapping ++ .restores 1 :: [.assigns 0 "A" (some "3")] ++ [.restores 1]) =
      run [("A", "0")] (overlapping ++ .restores 1 :: [.assigns 0 "A" (some "3")]) := by
  have hOpen : 1 < (run [("A", "0")] overlapping).scopes.length := by decide
  obtain ⟨-, hUndoes, -, hAgain⟩ := restore_undoes [("A", "0")] overlapping 1 hOpen
  have hPeriod : Period [("A", "0")] 1 ([.opens, .assigns 0 "A" (some "1")] ++ [.opens])
      [.assigns 1 "A" none, .assigns 1 "A" (some "2"), .restores 0] := ⟨.opened (by decide), by decide⟩
  obtain ⟨-, hFirst⟩ := hUndoes _ _ rfl hPeriod "A"
  refine ⟨hOpen, by decide, ?_, hAgain _ (by simp)⟩
  rw [hFirst [] none _ rfl (by simp)]
  decide

end Scoped

end Pipework
