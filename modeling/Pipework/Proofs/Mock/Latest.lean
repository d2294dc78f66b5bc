import Pipework.Proofs.Mock.Independent

/-!
# What is in force for a pattern

Of what is registered for a pattern the latest is in force, a response that is queued registering its queue. There is
one exception: once a handler has taken the place of the queue, another response does not bring the queue back. A
response that is queued while the queue is in force is given when those before it have been.
-/

namespace Pipework.Mock

section Latest

def Event.isQueue (pattern : Pattern) : Event → Bool
  | .queue _ p => p = pattern
  | _ => false

def Event.isHandle (pattern : Pattern) : Event → Bool
  | .handle _ p => p = pattern
  | _ => false

/-- What is registered for `pattern` after an event, if that takes the place of what was before. -/
def Event.supersede (pattern : Pattern) (old : Option (Handler Reaction)) : Event → Option (Handler Reaction)
  | .queue _ p => if p = pattern then some .queue else old
  | .handle reaction p => if p = pattern then some (.other reaction) else old
  | .call _ _ => old

def latest? (pattern : Pattern) (events : List Event) : Option (Handler Reaction) :=
  events.foldl (fun old e => e.supersede pattern old) none

/-- The last handler for `pattern` came after a response had been queued for it, and others were queued since. -/
def Overlooked (pattern : Pattern) (events : List Event) : Prop :=
  ∃ before reaction since, events = before ++ .handle reaction pattern :: since ∧
    before.any (Event.isQueue pattern) = true ∧ since.any (Event.isQueue pattern) = true ∧
    since.any (Event.isHandle pattern) = false

variable {name : String} {pattern : Pattern} {events since : List Event}

variable (name pattern) in
theorem lookup_after (m : MockCommand) (e : Event) :
    (after name m e).handlers.lookup pattern = (e.fill pattern (m.slot pattern)).1 :=
  congrArg Prod.fst (slot_after m e pattern)

variable (name pattern) in
theorem slot_foldl (m : MockCommand) (events : List Event) :
    (events.foldl (after name) m).slot pattern =
      events.foldl (fun old e => e.fill pattern old) (m.slot pattern) := by
  induction events generalizing m with
  | nil => rfl
  | cons e events ih => rw [List.foldl_cons, List.foldl_cons, ih, slot_after]

variable (pattern) in
theorem fill_snd (events : List Event) (old : Option (Handler Reaction) × Bool) :
    (events.foldl (fun old e => e.fill pattern old) old).2 = (old.2 || events.any (Event.isQueue pattern)) := by
  induction events generalizing old with
  | nil => simp
  | cons e events ih =>
    rw [List.foldl_cons, ih, List.any_cons, ← Bool.or_assoc]
    congr 1
    cases e with
    | queue response p => by_cases hp : p = pattern <;> simp [Event.fill, Event.isQueue, Registration.fill, hp]
    | handle reaction p => by_cases hp : p = pattern <;> simp [Event.fill, Event.isQueue, Registration.fill, hp]
    | call p s => simp [Event.fill, Event.isQueue]

/-- As long as no handler is registered, only the first response changes what is in force. -/
theorem fill_fst (hSince : since.any (Event.isHandle pattern) = false) (old : Option (Handler Reaction) × Bool) :
    (since.foldl (fun old e => e.fill pattern old) old).1 =
      if old.2 = false ∧ since.any (Event.isQueue pattern) = true then some .queue else old.1 := by
  induction since generalizing old with
  | nil => simp
  | cons e since ih =>
    rw [List.any_cons, Bool.or_eq_false_iff] at hSince
    rw [List.foldl_cons, ih hSince.2, List.any_cons]
    cases e with
    | queue response p =>
      by_cases hp : p = pattern
      · cases hQueued : old.2 <;> simp [Event.fill, Event.isQueue, Registration.fill, hp, hQueued]
      · simp [Event.fill, Event.isQueue, hp]
    | handle reaction p =>
      have hp : p ≠ pattern := by simpa [Event.isHandle] using hSince.1
      simp [Event.fill, Event.isQueue, hp]
    | call p s => simp [Event.fill, Event.isQueue]

theorem supersede_foldl (hSince : since.any (Event.isHandle pattern) = false) (old : Option (Handler Reaction)) :
    since.foldl (fun old e => e.supersede pattern old) old =
      if since.any (Event.isQueue pattern) then some .queue else old := by
  induction since generalizing old with
  | nil => rfl
  | cons e since ih =>
    rw [List.any_cons, Bool.or_eq_false_iff] at hSince
    rw [List.foldl_cons, ih hSince.2, List.any_cons]
    cases e with
    | queue response p => by_cases hp : p = pattern <;> simp [Event.supersede, Event.isQueue, hp]
    | handle reaction p =>
      have hp : p ≠ pattern := by simpa [Event.isHandle] using hSince.1
      simp [Event.supersede, Event.isQueue, hp]
    | call p s => simp [Event.supersede, Event.isQueue]

theorem no_handle_or_last (pattern : Pattern) (events : List Event) :
    events.any (Event.isHandle pattern) = false ∨
      ∃ before reaction since, events = before ++ .handle reaction pattern :: since ∧
        since.any (Event.isHandle pattern) = false := by
  induction events with
  | nil => exact .inl rfl
  | cons e events ih =>
    rcases ih with hNone | ⟨before, reaction, since, rfl, hSince⟩
    · cases hHandle : e.isHandle pattern with
      | false => exact .inl (by rw [List.any_cons, hHandle, hNone]; rfl)
      | true =>
        cases e with
        | handle reaction p =>
          obtain rfl : p = pattern := by simpa [Event.isHandle] using hHandle
          exact .inr ⟨[], reaction, events, rfl, hNone⟩
        | queue response p => cases hHandle
        | call p s => cases hHandle
    · exact .inr ⟨e :: before, reaction, since, rfl, hSince⟩

variable (name) in
/-- What is registered in the end is what was registered last, if no response has been overlooked. -/
theorem registered_eq_latest (hKept : ¬ Overlooked pattern events) :
    (events.foldl (after name) .empty).handlers.lookup pattern = latest? pattern events := by
  have hSlot := congrArg Prod.fst (slot_foldl name pattern .empty events)
  refine hSlot.trans ?_
  rcases no_handle_or_last pattern events with hNone | ⟨before, reaction, since, rfl, hSince⟩
  · rw [fill_fst hNone, latest?, supersede_foldl hNone]
    simp [slot, empty]
  · have hQueued := fill_snd pattern before ((Mock.empty : MockCommand).slot pattern)
    have hEmpty : ((Mock.empty : MockCommand).slot pattern).2 = false := rfl
    rw [hEmpty, Bool.false_or] at hQueued
    rw [List.foldl_append, List.foldl_cons, fill_fst hSince, latest?, List.foldl_append, List.foldl_cons,
      supersede_foldl hSince]
    generalize before.foldl _ _ = old at hQueued ⊢
    have hFill : (Event.handle reaction pattern).fill pattern old = (some (.other reaction), old.2) := if_pos rfl
    have hSupersede (latest : Option (Handler Reaction)) :
        (Event.handle reaction pattern).supersede pattern latest = some (.other reaction) := if_pos rfl
    rw [hFill, hSupersede, hQueued]
    cases hSome : since.any (Event.isQueue pattern) with
    | false => rw [if_neg (by simp), if_neg Bool.false_ne_true]
    | true =>
      have hFirst : before.any (Event.isQueue pattern) = false :=
        Bool.eq_false_iff.mpr fun hBefore => hKept ⟨before, reaction, since, rfl, hBefore, hSome, hSince⟩
      rw [if_pos ⟨hFirst, rfl⟩, if_pos rfl]

end Latest

section Waiting

variable {name : String} {m : MockCommand} {pattern : Pattern} {n : Nat} {r : Response} {e : Event}
  {events : List Event}

def Alone (m : MockCommand) (pattern : Pattern) : Prop :=
  ∀ other, m.handlers.lookup other = some .queue → key other = key pattern → other = pattern

/-- What is kept under the key of `pattern` is from its own queue, which holds at most `n` responses. -/
structure Owned (m : MockCommand) (pattern : Pattern) (n : Nat) : Prop where
  alone : m.Alone pattern
  kept : (m.shelf pattern).captured.isSome = true → (m.shelf pattern).queue.isSome = true
  length_le : ∀ queue, (m.shelf pattern).queue = some queue → queue.length ≤ n

/-- A response that is queued is not for another pattern with the key of `pattern`. -/
def Event.Respects (pattern : Pattern) : Event → Prop
  | .queue _ other => key other = key pattern → other = pattern
  | _ => True

variable (name) in
theorem Alone.shelf_aside (h : m.Alone pattern) (hKey : e.Respects pattern) (hOther : e.target m ≠ some pattern) :
    (after name m e).shelf pattern = m.shelf pattern := by
  cases e with
  | queue response other =>
    have hNe : key pattern ≠ key other := fun hSame => hOther (congrArg some (hKey hSame.symm))
    exact (restocked_enqueue m response other).aside hNe
  | handle reaction other => rfl
  | call p s =>
    rcases m.serves_or_none p.args with ⟨other, handler, hServes⟩ | hNone
    · have hLeft := (restocked_call name s hServes).2
      by_cases hSame : key pattern = key other
      · have hNe : other ≠ pattern := fun hSame => hOther (hSame ▸ target_call s hServes)
        -- A handler that is no queue leaves everything as it is, whatever keys are shared.
        cases handler with
        | queue => exact absurd (h other hServes.registered hSame.symm) hNe
        | other reaction =>
          have hStays : ((m.shelf other).call name s p (.other reaction)).2 = m.shelf other := by
            unfold Shelf.call
            rcases p.intake s with ⟨past, fault | got⟩ <;> rfl
          rw [hStays] at hLeft
          refine (hLeft.shelf_eq pattern).trans ?_
          rw [if_neg (Ne.symm hNe), if_pos hSame, shelf, shelf, hSame]
      · exact hLeft.aside hSame
    · exact shelf_call_of_none s hNone pattern

theorem lookup_queue_after (other : Pattern) (h : (after name m e).handlers.lookup other = some .queue) :
    m.handlers.lookup other = some .queue ∨ ∃ response, e = .queue response other := by
  have hFill : (e.fill other (m.slot other)).1 = some .queue := (lookup_after name other m e).symm.trans h
  cases e with
  | queue response p =>
    by_cases hp : p = other
    · exact .inr ⟨response, by rw [hp]⟩
    · rw [Event.fill, if_neg hp] at hFill
      exact .inl hFill
  | handle reaction p =>
    by_cases hp : p = other
    · rw [Event.fill, if_pos hp] at hFill
      cases hFill
    · rw [Event.fill, if_neg hp] at hFill
      exact .inl hFill
  | call p s => exact .inl hFill

variable (name) in
theorem Alone.after (h : m.Alone pattern) (hKey : e.Respects pattern) : (after name m e).Alone pattern := by
  intro other hQueue hSame
  rcases lookup_queue_after other hQueue with hOld | ⟨response, rfl⟩
  · exact h other hOld hSame
  · exact hKey hSame

theorem Shelf.length_enqueue (r : Response) {shelf : Shelf}
    (h : ∀ queue, shelf.queue = some queue → queue.length ≤ n) :
    ∀ queue, (shelf.enqueue r).queue = some queue → queue.length ≤ n + 1 := by
  rcases shelf with ⟨_ | queue, _ | text⟩ <;> rintro _ ⟨⟩
  · simp
  · simp
  · simpa using h queue rfl
  · simp

theorem Shelf.length_serve (s : Surroundings) (past : List Deed) {shelf : Shelf}
    (h : ∀ queue, shelf.queue = some queue → queue.length ≤ n) :
    ∀ queue, (shelf.serve s past).2.queue = some queue → queue.length ≤ n := by
  intro queue hQueue
  unfold Shelf.serve at hQueue
  split at hQueue
  · exact h queue hQueue
  · cases hQueue
  · exact h queue hQueue
  · next last =>
    cases hQueue
    exact h [last] rfl
  · next next behind rest =>
    cases hQueue
    exact Nat.le_of_succ_le (h (next :: behind :: rest) rfl)

theorem Shelf.length_call (name : String) (s : Surroundings) (p : Proc) (handler : Handler Reaction) {shelf : Shelf}
    (h : ∀ queue, shelf.queue = some queue → queue.length ≤ n) :
    ∀ queue, (shelf.call name s p handler).2.queue = some queue → queue.length ≤ n := by
  unfold Shelf.call
  rcases p.intake s with ⟨past, fault | got⟩
  · exact h
  · cases handler with
    | queue => exact Shelf.length_serve s past h
    | other reaction => exact h

theorem Shelf.kept_call (name : String) (s : Surroundings) (p : Proc) (handler : Handler Reaction) {shelf : Shelf}
    (h : shelf.captured.isSome = true → shelf.queue.isSome = true) :
    (shelf.call name s p handler).2.captured.isSome = true → (shelf.call name s p handler).2.queue.isSome = true := by
  rw [Shelf.isSome_call]
  unfold Shelf.call
  rcases p.intake s with ⟨past, fault | got⟩
  · exact h
  · cases handler with
    | queue => rcases shelf with ⟨_ | _ | ⟨_, _ | _⟩, _ | _⟩ <;> first | exact h | exact fun _ => rfl
    | other reaction => exact h

theorem Owned.mono (h : m.Owned pattern n) {k : Nat} (hk : n ≤ k) : m.Owned pattern k :=
  ⟨h.alone, h.kept, fun queue hQueue => (h.length_le queue hQueue).trans hk⟩

theorem Owned.after (h : m.Owned pattern n) (hKey : e.Respects pattern) :
    (after name m e).Owned pattern (n + if e.isQueue pattern then 1 else 0) := by
  have hAlone := h.alone.after name hKey
  by_cases hTarget : e.target m = some pattern
  · cases e with
    | queue response p =>
      cases hTarget
      have hShelf :
          (Mock.after name m (.queue response pattern)).shelf pattern = (m.shelf pattern).enqueue response := by
        rw [Mock.after, (restocked_enqueue m response pattern).shelf_eq, if_pos rfl, if_pos rfl]
      have hOne : (if (Event.queue response pattern).isQueue pattern then 1 else 0) = 1 := by simp [Event.isQueue]
      refine ⟨hAlone, ?_, ?_⟩
      · rw [hShelf]
        rcases m.shelf pattern with ⟨_ | queue, _ | text⟩ <;> exact fun _ => rfl
      · rw [hShelf, hOne]
        exact Shelf.length_enqueue response h.length_le
    | handle reaction p => exact ⟨hAlone, h.kept, h.length_le⟩
    | call p s =>
      obtain ⟨⟨found, handler⟩, hFound, rfl⟩ := Option.map_eq_some_iff.mp hTarget
      have hServes := dispatch_eq_some_iff.mp hFound
      have hShelf : (Mock.after name m (.call p s)).shelf found = ((m.shelf found).call name s p handler).2 := by
        rw [Mock.after, (restocked_call name s hServes).2.shelf_eq, if_pos rfl, if_pos rfl]
      refine ⟨hAlone, ?_, ?_⟩
      · rw [hShelf]
        exact Shelf.kept_call name s p handler h.kept
      · rw [hShelf]
        exact Shelf.length_call name s p handler h.length_le
  · have hShelf := h.alone.shelf_aside name hKey hTarget
    have hLength := (h.mono (Nat.le_add_right n (if e.isQueue pattern then 1 else 0))).length_le
    exact ⟨hAlone, by rw [hShelf]; exact h.kept, by rw [hShelf]; exact hLength⟩

theorem Owned.empty : (Mock.empty : MockCommand).Owned pattern 0 :=
  ⟨(fun _ h => nomatch h), (fun h => nomatch h), fun _ h => nomatch h⟩

variable (name) in
theorem owned_foldl (hKeys : ∀ e ∈ events, e.Respects pattern) (h : m.Owned pattern n) :
    (events.foldl (Mock.after name) m).Owned pattern (n + events.countP (Event.isQueue pattern)) := by
  induction events generalizing m n with
  | nil => exact h
  | cons e events ih =>
    obtain ⟨hKey, hKeys⟩ := List.forall_mem_cons.mp hKeys
    rw [List.countP_cons, Nat.add_comm (events.countP _), ← Nat.add_assoc]
    exact ih hKeys (h.after hKey)

/-- The number of responses that come before one that is queued now. -/
def Shelf.ahead : Shelf → Nat
  | ⟨some queue, none⟩ => queue.length
  | _ => 0

theorem Owned.ahead_le (h : m.Owned pattern n) : (m.shelf pattern).ahead ≤ n := by
  have hLength := h.length_le
  generalize m.shelf pattern = shelf at hLength ⊢
  rcases shelf with ⟨_ | queue, _ | text⟩
  · exact Nat.zero_le n
  · exact Nat.zero_le n
  · exact hLength queue rfl
  · exact Nat.zero_le n

/-- The queue of `pattern` is in force, and `n` responses in it come before `r`. -/
structure Awaits (m : MockCommand) (pattern : Pattern) (r : Response) (n : Nat) : Prop where
  alone : m.Alone pattern
  registered : m.handlers.lookup pattern = some .queue
  ahead : ∃ before behind, m.shelf pattern = ⟨some (before ++ r :: behind), none⟩ ∧ before.length = n

def Event.isTurn (pattern : Pattern) (m : MockCommand) : Event → Bool
  | .call p s => Event.target m (.call p s) = some pattern ∧ (p.intake s).2.isOk
  | _ => false

/-- The number of calls for `pattern` in a history that can read their input. -/
def turns (name : String) (pattern : Pattern) (m : MockCommand) : List Event → Nat
  | [] => 0
  | e :: rest => (if e.isTurn pattern m then 1 else 0) + turns name pattern (after name m e) rest

theorem Event.isTurn_iff :
    e.isTurn pattern m = true ↔
      ∃ p s past got handler, e = .call p s ∧ p.intake s = (past, .ok got) ∧ m.Serves p.args pattern handler := by
  constructor
  · intro hTurn
    cases e with
    | queue response other => cases hTurn
    | handle reaction other => cases hTurn
    | call p s =>
      obtain ⟨hTarget, hRead⟩ := of_decide_eq_true hTurn
      obtain ⟨⟨found, handler⟩, hFound, rfl⟩ := Option.map_eq_some_iff.mp hTarget
      rcases hIntake : p.intake s with ⟨past, fault | got⟩
      · rw [hIntake] at hRead
        cases hRead
      · exact ⟨p, s, past, got, handler, rfl, hIntake, dispatch_eq_some_iff.mp hFound⟩
  · rintro ⟨p, s, past, got, handler, rfl, hIntake, hServes⟩
    exact decide_eq_true ⟨target_call s hServes, by rw [hIntake]; rfl⟩

namespace Awaits

theorem enqueue (h : m.Owned pattern n) (hAlone : (m.enqueue r pattern).Alone pattern)
    (hQueue : (m.enqueue r pattern).handlers.lookup pattern = some .queue) :
    (m.enqueue r pattern).Awaits pattern r (m.shelf pattern).ahead := by
  refine ⟨hAlone, hQueue, ?_⟩
  have hKept := h.kept
  rw [(restocked_enqueue m r pattern).shelf_eq, if_pos rfl, if_pos rfl]
  generalize m.shelf pattern = shelf at hKept ⊢
  rcases shelf with ⟨_ | queue, _ | text⟩
  · exact ⟨[], [], rfl, rfl⟩
  · cases hKept rfl
  · exact ⟨queue, [], rfl, rfl⟩
  · exact ⟨[], [], rfl, rfl⟩

theorem registered_after (h : m.Awaits pattern r n) (hHandle : e.isHandle pattern = false) :
    (after name m e).handlers.lookup pattern = some .queue := by
  have hOld : (m.slot pattern).1 = some .queue := h.registered
  refine (lookup_after name pattern m e).trans ?_
  cases e with
  | queue response p =>
    by_cases hp : p = pattern
    · simp [Event.fill, Registration.fill, hp, hOld]
    · rw [Event.fill, if_neg hp, hOld]
  | handle reaction p =>
    have hp : p ≠ pattern := by simpa [Event.isHandle] using hHandle
    rw [Event.fill, if_neg hp, hOld]
  | call p s => exact hOld

theorem handler_eq (h : m.Awaits pattern r n) {args : List String} {handler : Handler Reaction}
    (hServes : m.Serves args pattern handler) : handler = .queue :=
  Option.some.inj (hServes.registered.symm.trans h.registered)

theorem stays (h : m.Awaits pattern r n) (hKey : e.Respects pattern) (hHandle : e.isHandle pattern = false)
    (hTurn : e.isTurn pattern m = false) : (after name m e).Awaits pattern r n := by
  refine ⟨h.alone.after name hKey, h.registered_after hHandle, ?_⟩
  obtain ⟨before, behind, hShelf, hLength⟩ := h.ahead
  by_cases hTarget : e.target m = some pattern
  · cases e with
    | queue response p =>
      cases hTarget
      refine ⟨before, behind ++ [response], ?_, hLength⟩
      rw [after, (restocked_enqueue m response pattern).shelf_eq, if_pos rfl, if_pos rfl, hShelf, Shelf.enqueue,
        List.append_assoc, List.cons_append]
    | handle reaction p => exact ⟨before, behind, hShelf, hLength⟩
    | call p s =>
      -- The call could not read its input, and takes nothing.
      refine ⟨before, behind, ?_, hLength⟩
      obtain ⟨⟨found, handler⟩, hFound, rfl⟩ := Option.map_eq_some_iff.mp hTarget
      have hServes := dispatch_eq_some_iff.mp hFound
      rcases hIntake : p.intake s with ⟨past, fault | got⟩
      · rw [after, call_eq, hIntake]
        exact hShelf
      · have hRead : (Event.call p s).isTurn found m = true :=
          Event.isTurn_iff.mpr ⟨p, s, past, got, handler, rfl, hIntake, hServes⟩
        rw [hRead] at hTurn
        cases hTurn
  · exact ⟨before, behind, (h.alone.shelf_aside name hKey hTarget).trans hShelf, hLength⟩

theorem advances (h : m.Awaits pattern r (n + 1)) (hKey : e.Respects pattern) (hHandle : e.isHandle pattern = false)
    (hTurn : e.isTurn pattern m = true) : (after name m e).Awaits pattern r n := by
  obtain ⟨before, behind, hShelf, hLength⟩ := h.ahead
  refine ⟨h.alone.after name hKey, h.registered_after hHandle, ?_⟩
  obtain ⟨p, s, past, got, handler, rfl, hIntake, hServes⟩ := Event.isTurn_iff.mp hTurn
  obtain ⟨first, before, rfl⟩ := List.exists_cons_of_length_eq_add_one hLength
  refine ⟨before, behind, ?_, by simpa using hLength⟩
  rw [after, (restocked_call name s hServes).2.shelf_eq, if_pos rfl, if_pos rfl, hShelf, h.handler_eq hServes,
    Shelf.call, hIntake]
  cases before <;> rfl

theorem given (h : m.Awaits pattern r 0) {p : Proc} {s : Surroundings} {past : List Deed} {got : Option Bytes}
    {handler : Handler Reaction} (hServes : m.Serves p.args pattern handler) (hIntake : p.intake s = (past, .ok got)) :
    (call name s m p).1 = r.give s past := by
  obtain ⟨before, behind, hShelf, hLength⟩ := h.ahead
  obtain rfl := List.length_eq_zero_iff.mp hLength
  rw [(restocked_call name s hServes).1, hShelf, h.handler_eq hServes, Shelf.call, hIntake]
  cases behind <;> rfl

theorem foldl (h : m.Awaits pattern r n) (hKeys : ∀ e ∈ events, e.Respects pattern)
    (hHandle : events.any (Event.isHandle pattern) = false) {k : Nat} (hTurns : turns name pattern m events + k = n) :
    (events.foldl (Mock.after name) m).Awaits pattern r k := by
  induction events generalizing m n with
  | nil =>
    obtain rfl : k = n := by simpa [turns] using hTurns
    exact h
  | cons e events ih =>
    obtain ⟨hKey, hKeys⟩ := List.forall_mem_cons.mp hKeys
    rw [List.any_cons, Bool.or_eq_false_iff] at hHandle
    rw [turns] at hTurns
    cases hTurn : e.isTurn pattern m with
    | false =>
      rw [hTurn, if_neg Bool.false_ne_true, Nat.zero_add] at hTurns
      exact ih (h.stays hKey hHandle.1 hTurn) hKeys hHandle.2 hTurns
    | true =>
      rw [hTurn, if_pos rfl] at hTurns
      obtain ⟨n, rfl⟩ : ∃ n', n = n' + 1 := ⟨turns name pattern (after name m e) events + k, by omega⟩
      exact ih (h.advances hKey hHandle.1 hTurn) hKeys hHandle.2 (by omega)

end Awaits

end Waiting

section InForce

variable {name : String} {pattern : Pattern} {events : List Event}

theorem Overlooked.append {later : List Event} (h : Overlooked pattern events)
    (hLater : later.any (Event.isHandle pattern) = false) : Overlooked pattern (events ++ later) := by
  obtain ⟨before, reaction, since, rfl, hBefore, hSince, hHandle⟩ := h
  refine ⟨before, reaction, since ++ later, by simp, hBefore, ?_, ?_⟩
  · rw [List.any_append, hSince]
    rfl
  · rw [List.any_append, hHandle, hLater]
    rfl

/-- Calls for a pattern are for what was registered for it last, a handler or the queue of responses, as long as no
response has been overlooked. A response that is queued is then given to a call for the pattern once the responses
before it have been, unless a handler is registered first, and if no other queue has the same key. -/
theorem latest_in_force (name : String) (hKept : ¬ Overlooked pattern events) :
    (∀ p s, Event.target (events.foldl (after name) .empty) (.call p s) = some pattern →
      ∃ handler, latest? pattern events = some handler ∧
        (call name s (events.foldl (after name) .empty) p).1 =
          (((events.foldl (after name) .empty).shelf pattern).call name s p handler).1) ∧
    ∀ past r later, events = past ++ .queue r pattern :: later → later.any (Event.isHandle pattern) = false →
      (∀ e ∈ events, e.Respects pattern) →
      let first : MockCommand := past.foldl (after name) .empty
      let m : MockCommand := first.enqueue r pattern
      (first.shelf pattern).ahead ≤ past.countP (Event.isQueue pattern) ∧
        ∀ before p s rest deeds got, later = before ++ .call p s :: rest → p.intake s = (deeds, .ok got) →
          Event.target (before.foldl (after name) m) (.call p s) = some pattern →
          turns name pattern m before = (first.shelf pattern).ahead →
          (call name s (before.foldl (after name) m) p).1 = r.give s deeds := by
  refine ⟨fun p s hTarget => ?_, fun past r later hSplit hLater hKeys => ?_⟩
  · obtain ⟨⟨found, handler⟩, hFound, rfl⟩ := Option.map_eq_some_iff.mp hTarget
    have hServes := dispatch_eq_some_iff.mp hFound
    exact ⟨handler, (registered_eq_latest name hKept).symm.trans hServes.registered, (restocked_call name s hServes).1⟩
  · subst hSplit
    intro first m
    obtain ⟨hPast, hQueue, hAfter⟩ : (∀ e ∈ past, e.Respects pattern) ∧ (Event.queue r pattern).Respects pattern ∧
        ∀ e ∈ later, e.Respects pattern := by simpa [or_imp, forall_and] using hKeys
    have hOwned := owned_foldl name hPast Owned.empty
    rw [Nat.zero_add] at hOwned
    have hRegistered : m.handlers.lookup pattern = some .queue := by
      have hFirst : ¬ Overlooked pattern (past ++ [.queue r pattern]) := fun hOver => by
        have hAll := hOver.append hLater
        rw [List.append_assoc] at hAll
        exact hKept hAll
      have hLatest := registered_eq_latest name hFirst
      rw [List.foldl_concat, latest?, List.foldl_concat] at hLatest
      exact hLatest.trans (if_pos rfl)
    refine ⟨hOwned.ahead_le, ?_⟩
    rintro before p s rest deeds got rfl hIntake hTarget hTurns
    rw [List.any_append, Bool.or_eq_false_iff] at hLater
    have hAwaits := Awaits.enqueue hOwned (hOwned.alone.after name hQueue) hRegistered
    have hBefore := hAwaits.foldl (fun e he => hAfter e (List.mem_append_left _ he)) hLater.1 (k := 0) hTurns
    obtain ⟨⟨found, handler⟩, hFound, rfl⟩ := Option.map_eq_some_iff.mp hTarget
    exact hBefore.given (dispatch_eq_some_iff.mp hFound) hIntake

def handledFirst : List Event :=
  [.handle ⟨false, [7], none⟩ ["m"], .queue ⟨[1], none⟩ ["m"], .queue ⟨[2], none⟩ ["m"],
    .call (bare ["m"]) .willing, .call (bare ["m"]) .willing]

theorem latest_in_force_handledFirst :
    ¬ Overlooked ["m"] handledFirst ∧ latest? ["m"] handledFirst = some .queue ∧
    (∀ e ∈ handledFirst, e.Respects ["m"]) ∧
    (call "m" .willing (handledFirst.foldl (after "m") .empty) (bare ["m"])).1 =
      ([⟨.write .out [2], none⟩], .ok ()) ∧
    (call "m" .willing ((handledFirst.take 4).foldl (after "m") .empty) (bare ["m"])).1 =
      ([⟨.write .out [2], none⟩], .ok ()) := by
  have hKept : ¬ Overlooked ["m"] handledFirst := by
    rintro ⟨before, reaction, since, hSplit, hBefore, -, -⟩
    -- No response comes before the only handler.
    cases before with
    | nil => cases hBefore
    | cons e before =>
      have hMem : .handle reaction ["m"] ∈ handledFirst.tail := by
        rw [hSplit]
        simp
      simp [handledFirst] at hMem
  have hKeys : ∀ e ∈ handledFirst, e.Respects ["m"] := by simp [handledFirst, Event.Respects]
  obtain ⟨hCalls, hQueue⟩ := latest_in_force "m" hKept
  obtain ⟨handler, hLatest, hLast⟩ := hCalls (bare ["m"]) .willing rfl
  obtain rfl : Handler.queue = handler := Option.some.inj hLatest
  have hSecond := (hQueue (handledFirst.take 2) ⟨[2], none⟩ (handledFirst.drop 3) rfl rfl hKeys).2
    [.call (bare ["m"]) .willing] (bare ["m"]) .willing [] [] none rfl rfl rfl rfl
  exact ⟨hKept, rfl, hKeys, hLast, hSecond⟩

-- A response is overlooked once a handler has taken the place of the queue.
example :
    let events : List Event :=
      [.queue ⟨[1], none⟩ ["m"], .handle ⟨false, [7], none⟩ ["m"], .queue ⟨[2], none⟩ ["m"]]
    let m := events.foldl (after "m") .empty
    (call "m" .willing m (bare ["m"])).1 = ([⟨.write .out [7], none⟩], .ok ()) := rfl

end InForce

end Pipework.Mock
