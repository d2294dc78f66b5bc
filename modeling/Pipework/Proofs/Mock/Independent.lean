import Pipework.Proofs.Mock.Call

/-!
# Patterns that do not share a key

Captured texts are kept under keys, and two patterns may share one. Whatever is queued, registered and called for
under one pattern is of no account to a pattern with another key.
-/

namespace Pipework.Mock

section Keys

/-- The arguments of a pattern, cut at zero characters. -/
def parts (pattern : Pattern) : List (List Char) :=
  if pattern = [] then ["<default>".toList] else pattern.flatMap (·.toList.splitOn '\x00')

theorem splitOn_intercalate_zero {args : List (List Char)} (h : args ≠ []) :
    (['\x00'].intercalate args).splitOn '\x00' = args.flatMap (·.splitOn '\x00') := by
  induction args with
  | nil => exact absurd rfl h
  | cons arg args ih =>
    cases args with
    | nil => simp
    | cons arg' args =>
      rw [List.intercalate_cons_cons, List.append_assoc, List.singleton_append, List.splitOn_append_cons_self,
        ih (List.cons_ne_nil arg' args)]
      rfl

theorem splitOn_key (pattern : Pattern) : (key pattern).toList.splitOn '\x00' = parts pattern := by
  unfold key parts
  split
  · exact List.splitOn_eq_singleton (by decide)
  · next hPattern =>
    rw [String.toList_intercalate]
    refine (splitOn_intercalate_zero (by simpa using hPattern)).trans ?_
    rw [List.flatMap_map]

theorem key_eq_iff {p q : Pattern} : key p = key q ↔ parts p = parts q := by
  rw [← splitOn_key, ← splitOn_key, ← String.toList_inj]
  constructor
  · intro hKey
    rw [hKey]
  · intro hParts
    calc
      (key p).toList = ['\x00'].intercalate ((key p).toList.splitOn '\x00') := (List.intercalate_splitOn '\x00').symm
      _ = ['\x00'].intercalate ((key q).toList.splitOn '\x00') := by rw [hParts]
      _ = (key q).toList := List.intercalate_splitOn '\x00'

theorem key_injective {p q : Pattern} (hp : p ≠ []) (hq : q ≠ []) (hPlain : ∀ arg ∈ p ++ q, '\x00' ∉ arg.toList)
    (hKey : key p = key q) : p = q := by
  have hParts {r : Pattern} (hr : r ≠ []) (hPlain : ∀ arg ∈ r, '\x00' ∉ arg.toList) :
      parts r = r.map String.toList := by
    rw [parts, if_neg hr, List.flatMap_congr fun arg hArg => List.splitOn_eq_singleton (hPlain arg hArg),
      ← List.map_eq_flatMap]
  rw [List.forall_mem_append] at hPlain
  rw [key_eq_iff, hParts hp hPlain.1, hParts hq hPlain.2] at hKey
  exact List.map_injective_iff.mpr (fun _ _ => String.toList_injective) hKey

end Keys

section Shelves

/-- What there is for a pattern. -/
structure Shelf where
  queue : Option (List Response)
  captured : Option Bytes

namespace Shelf

def enqueue (r : Response) : Shelf → Shelf
  | ⟨none, captured⟩ => ⟨some [r], captured⟩
  | ⟨some queue, none⟩ => ⟨some (queue ++ [r]), none⟩
  | ⟨some _, some _⟩ => ⟨some [r], none⟩

/-- What a call comes to that has done `past` and is given a response, and what is then left. -/
def serve (s : Surroundings) (past : List Deed) : Shelf → Outcome × Shelf
  | ⟨queue, some text⟩ => ((⟨text, none⟩ : Response).give s past, ⟨queue, some text⟩)
  | ⟨none, none⟩ => ((past, .ok ()), ⟨none, none⟩)
  | ⟨some [], none⟩ => ((past, .ok ()), ⟨some [], none⟩)
  | ⟨some [last], none⟩ =>
    (last.give s past, ⟨some [{ last with text := [] }], if (last.give s past).fails then none else some last.text⟩)
  | ⟨some (next :: behind :: rest), none⟩ => (next.give s past, ⟨some (behind :: rest), none⟩)

/-- What a call comes to that is for `handler`, and what is then left. -/
def call (name : String) (s : Surroundings) (p : Proc) (handler : Handler Reaction) (shelf : Shelf) : Outcome × Shelf :=
  match p.intake s with
  | (past, .error fault) => ((past, .error fault), shelf)
  | (past, .ok got) =>
    match handler with
    | .queue => shelf.serve s past
    | .other reaction => (((Builtin.react reaction got).play name s past .empty).1, shelf)

theorem isSome_serve (s : Surroundings) (past : List Deed) (shelf : Shelf) :
    (shelf.serve s past).2.queue.isSome = shelf.queue.isSome := by
  unfold serve
  split <;> rfl

theorem isSome_call (name : String) (s : Surroundings) (p : Proc) (handler : Handler Reaction) (shelf : Shelf) :
    (shelf.call name s p handler).2.queue.isSome = shelf.queue.isSome := by
  unfold call
  rcases p.intake s with ⟨past, fault | got⟩
  · rfl
  · cases handler with
    | queue => exact isSome_serve s past shelf
    | other reaction => rfl

end Shelf

variable {α : Type} {m : Mock α} {pattern : Pattern}

def shelf (m : Mock α) (pattern : Pattern) : Shelf := ⟨m.responses.lookup pattern, m.captured.lookup (key pattern)⟩

/-- From `m`, `m'` differs in what there is for `pattern`, which is `shelf`. -/
structure Restocked (m : Mock α) (pattern : Pattern) (shelf : Shelf) (m' : Mock α) : Prop where
  queue : ∀ p, m'.responses.lookup p = if p = pattern then shelf.queue else m.responses.lookup p
  captured : ∀ k, m'.captured.lookup k = if k = key pattern then shelf.captured else m.captured.lookup k

theorem Restocked.refl (m : Mock α) (pattern : Pattern) : Restocked m pattern (m.shelf pattern) m where
  queue p := by
    split
    · next hp => rw [hp, shelf]
    · rfl
  captured k := by
    split
    · next hk => rw [hk, shelf]
    · rfl

theorem Restocked.of_record {shelf : Shelf} {m' : Mock α} {call : Call}
    (h : Restocked (m.record call) pattern shelf m') : Restocked m pattern shelf m' := ⟨h.queue, h.captured⟩

theorem Restocked.aside {shelf : Shelf} {m' : Mock α} (h : Restocked m pattern shelf m') {p : Pattern}
    (hKey : key p ≠ key pattern) : m'.shelf p = m.shelf p := by
  have hp : p ≠ pattern := fun hSame => hKey (congrArg key hSame)
  rw [Mock.shelf, Mock.shelf, h.queue, h.captured, if_neg hp, if_neg hKey]

theorem Restocked.shelf_eq {shelf : Shelf} {m' : Mock α} (h : Restocked m pattern shelf m') (p : Pattern) :
    m'.shelf p = ⟨if p = pattern then shelf.queue else (m.shelf p).queue,
      if key p = key pattern then shelf.captured else (m.shelf p).captured⟩ := by
  rw [Mock.shelf, h.queue, h.captured]
  rfl

theorem restocked_assign (m : Mock α) (pattern : Pattern) (queue : List Response) :
    Restocked m pattern ⟨some queue, m.captured.lookup (key pattern)⟩
      { m with responses := assign pattern queue m.responses } where
  queue p := lookup_assign pattern p queue m.responses
  captured := (Restocked.refl m pattern).captured

theorem Restocked.capture {shelf : Shelf} {m' : Mock α} (h : Restocked m pattern shelf m') (text : Bytes) :
    Restocked m pattern ⟨shelf.queue, some text⟩ (m'.capture pattern text) where
  queue := h.queue
  captured k := by
    rw [Mock.capture, lookup_assign, h.captured]
    split <;> rfl

theorem lookup_filter_ne (k k' : String) (l : List (String × Bytes)) :
    (l.filter (·.1 ≠ k)).lookup k' = if k' = k then none else l.lookup k' := by
  induction l with
  | nil => simp
  | cons entry l ih =>
    obtain ⟨key, text⟩ := entry
    by_cases hKey : key = k
    · rw [List.filter_cons_of_neg (by simpa using hKey), ih]
      split
      · rfl
      · next hOther => rw [List.lookup_cons, beq_false_of_ne (hKey ▸ hOther)]
    · rw [List.filter_cons_of_pos (by simpa using hKey), List.lookup_cons, List.lookup_cons, ih]
      by_cases hSame : k' = key
      · simp [hSame, hKey]
      · simp [beq_false_of_ne hSame]

theorem restocked_enqueue (m : Mock α) (r : Response) (pattern : Pattern) :
    Restocked m pattern ((m.shelf pattern).enqueue r) (m.enqueue r pattern) := by
  unfold enqueue shelf
  cases hQueue : m.responses.lookup pattern with
  | none =>
    refine ⟨fun p => ?_, (Restocked.refl m pattern).captured⟩
    by_cases hp : p = pattern
    · simp [register, List.lookup_append, hp, hQueue, Shelf.enqueue]
    · simp [register, List.lookup_append, List.lookup_cons, beq_false_of_ne hp, hp]
  | some queue =>
    cases hCaptured : m.captured.lookup (key pattern) with
    | none =>
      have hAssign := restocked_assign m pattern (queue ++ [r])
      rw [hCaptured] at hAssign
      exact hAssign
    | some text =>
      refine ⟨(restocked_assign m pattern [r]).queue, fun k => ?_⟩
      exact lookup_filter_ne (key pattern) k m.captured

theorem restocked_serve (name : String) (s : Surroundings) (past : List Deed) (got : Option Bytes) (m : MockCommand)
    (pattern : Pattern) :
    (follow name s past got (m.serve pattern)).1 = ((m.shelf pattern).serve s past).1 ∧
      Restocked m pattern ((m.shelf pattern).serve s past).2 (follow name s past got (m.serve pattern)).2 := by
  have hSame := Restocked.refl m pattern
  unfold shelf at hSame ⊢
  cases hCaptured : m.captured.lookup (key pattern) with
  | some text =>
    rw [serve_of_captured hCaptured]
    rw [hCaptured] at hSame
    exact ⟨rfl, hSame⟩
  | none =>
    rw [hCaptured] at hSame
    match hQueue : m.responses.lookup pattern with
    | none =>
      rw [hQueue] at hSame
      rw [serve, hCaptured, hQueue]
      exact ⟨rfl, hSame⟩
    | some [] =>
      rw [hQueue] at hSame
      rw [serve, hCaptured, hQueue]
      exact ⟨rfl, hSame⟩
    | some [last] =>
      rw [serve_of_last hCaptured hQueue]
      have hLeft := restocked_assign m pattern [{ last with text := [] }]
      rw [hCaptured] at hLeft
      refine ⟨rfl, ?_⟩
      rw [Shelf.serve, follow, kept]
      cases (last.give s past).fails with
      | true => exact hLeft
      | false => exact hLeft.capture last.text
    | some (next :: behind :: rest) =>
      rw [serve_of_next hCaptured hQueue]
      have hLeft := restocked_assign m pattern (behind :: rest)
      rw [hCaptured] at hLeft
      exact ⟨rfl, hLeft⟩

/-- A call comes to what there is for the pattern under which it is served, and changes nothing else. -/
theorem restocked_call (name : String) (s : Surroundings) {m : MockCommand} {p : Proc} {handler : Handler Reaction}
    (h : m.Serves p.args pattern handler) :
    (call name s m p).1 = ((m.shelf pattern).call name s p handler).1 ∧
      Restocked m pattern ((m.shelf pattern).call name s p handler).2 (call name s m p).2 := by
  rw [call_eq, Shelf.call]
  rcases p.intake s with ⟨past, fault | got⟩
  · exact ⟨rfl, .refl m pattern⟩
  dsimp only
  rw [receive_of_serves h]
  generalize (⟨p.args, p.env, got.filter (· ≠ [])⟩ : Call) = call
  cases handler with
  | queue =>
    obtain ⟨hOutcome, hLeft⟩ := restocked_serve name s past got (m.record call) pattern
    exact ⟨hOutcome, hLeft.of_record⟩
  | other reaction =>
    rw [obey, follow_handler]
    exact ⟨rfl, (Restocked.refl (m.record call) pattern).of_record⟩

end Shelves

section Histories

variable (name : String)

def Event.target (m : MockCommand) : Event → Option Pattern
  | .queue _ pattern | .handle _ pattern => some pattern
  | .call p _ => (m.dispatch p.args).map Prod.fst

def Event.outcome? (pattern : Pattern) (m : MockCommand) : Event → Option Outcome
  | .queue _ _ | .handle _ _ => none
  | .call p s => if Event.target m (.call p s) = some pattern then some (Mock.call name s m p).1 else none

/-- What the calls for `pattern` come to, one after the other. -/
def outcomes (pattern : Pattern) (m : MockCommand) : List Event → List Outcome
  | [] => []
  | e :: rest => (e.outcome? name pattern m).toList ++ outcomes pattern (after name m e) rest

/-- What is left of a history without that which is for a pattern that is `dropped`. -/
def without (dropped : Pattern → Bool) (m : MockCommand) : List Event → List Event
  | [] => []
  | e :: rest =>
    if (e.target m).any dropped then without dropped (after name m e) rest
    else e :: without dropped (after name m e) rest

variable {name} {m m' : MockCommand} {e : Event}

theorem target_call (s : Surroundings) {p : Proc} {pattern : Pattern} {handler : Handler Reaction}
    (h : m.Serves p.args pattern handler) : Event.target m (.call p s) = some pattern := by
  rw [Event.target, dispatch_eq_some_iff.mpr h]
  rfl

/-- What an event makes of what is registered under `pattern`. -/
def Event.fill (pattern : Pattern) (old : Option (Handler Reaction) × Bool) : Event → Option (Handler Reaction) × Bool
  | .queue response p => if p = pattern then (Registration.queue response p).fill old else old
  | .handle reaction p => if p = pattern then (Registration.handle reaction p).fill old else old
  | .call _ _ => old

theorem handlers_call (s : Surroundings) (m : MockCommand) (p : Proc) :
    (call name s m p).2.handlers = m.handlers := by
  rw [call_eq]
  rcases p.intake s with ⟨past, fault | got⟩
  · rfl
  · have hReceived := handlers_receive m ⟨p.args, p.env, got.filter (· ≠ [])⟩
    rcases follow_cases name s past got (m.receive ⟨p.args, p.env, got.filter (· ≠ [])⟩) with hSame | ⟨_, _, hCaptured⟩
    · exact (congrArg handlers hSame).trans hReceived
    · exact (congrArg handlers hCaptured).trans hReceived

theorem shelf_call_of_none (s : Surroundings) {p : Proc} (hNone : ∀ pattern ∈ m.patterns, ¬ pattern <+: p.args)
    (pattern : Pattern) : (call name s m p).2.shelf pattern = m.shelf pattern := by
  rw [call_eq]
  rcases p.intake s with ⟨past, fault | got⟩
  · rfl
  · dsimp only
    rw [receive_of_none hNone]
    rfl

theorem isSome_lookup_call (s : Surroundings) (m : MockCommand) (p : Proc) (pattern : Pattern) :
    ((call name s m p).2.responses.lookup pattern).isSome = (m.responses.lookup pattern).isSome := by
  rcases m.serves_or_none p.args with ⟨served, handler, hServes⟩ | hNone
  · obtain ⟨-, hLeft⟩ := restocked_call name s hServes
    rw [hLeft.queue]
    split
    · next hp =>
      rw [Shelf.isSome_call, hp]
      rfl
    · rfl
  · have hSame : (call name s m p).2.shelf pattern = m.shelf pattern := shelf_call_of_none s hNone pattern
    exact congrArg (fun shelf => shelf.queue.isSome) hSame

theorem slot_after (m : MockCommand) (e : Event) (pattern : Pattern) :
    (after name m e).slot pattern = e.fill pattern (m.slot pattern) := by
  cases e with
  | queue response p => exact slot_enroll m (.queue response p) pattern
  | handle reaction p => exact slot_enroll m (.handle reaction p) pattern
  | call p s =>
    rw [after, slot, handlers_call, isSome_lookup_call]
    rfl

theorem Event.fill_of_target_ne {pattern : Pattern} (h : e.target m ≠ some pattern)
    (old : Option (Handler Reaction) × Bool) : e.fill pattern old = old := by
  cases e with
  | queue response p => exact if_neg fun hp => h (congrArg some hp)
  | handle reaction p => exact if_neg fun hp => h (congrArg some hp)
  | call p s => rfl

theorem Event.outcome?_of_target_ne {pattern : Pattern} (h : e.target m ≠ some pattern) :
    e.outcome? name pattern m = none := by
  cases e with
  | queue response p => rfl
  | handle reaction p => rfl
  | call p s => exact if_neg h

theorem mem_patterns_after {pattern : Pattern} (h : pattern ∈ m.patterns) (e : Event) :
    pattern ∈ (after name m e).patterns := by
  have hSlot : (m.slot pattern).1.isSome = true := mem_patterns_iff.mp h
  refine mem_patterns_iff.mpr (?_ : ((after name m e).slot pattern).1.isSome = true)
  rw [slot_after]
  cases e with
  | queue response p =>
    rw [Event.fill]
    split
    · rw [Registration.fill]
      split
      · exact hSlot
      · rfl
    · exact hSlot
  | handle reaction p =>
    rw [Event.fill]
    split
    · rfl
    · exact hSlot
  | call p s => exact hSlot

/-- What `m'` lacks of `m` is for patterns that are `dropped`, and nothing that is kept under `k`. -/
structure Alike (dropped : Pattern → Bool) (k : String) (m m' : MockCommand) : Prop where
  slots : ∀ pattern, dropped pattern = false → m'.slot pattern = m.slot pattern
  fewer : ∀ pattern ∈ m'.patterns, pattern ∈ m.patterns
  shelves : ∀ pattern, key pattern = k → m'.shelf pattern = m.shelf pattern

namespace Alike

variable {dropped : Pattern → Bool} {k : String}

theorem serves (h : Alike dropped k m m') {args : List String} {pattern : Pattern} {handler : Handler Reaction}
    (hKept : dropped pattern = false) (hServes : m.Serves args pattern handler) : m'.Serves args pattern handler where
  registered := (congrArg Prod.fst (h.slots pattern hKept)).trans hServes.registered
  begins := hServes.begins
  longest other hOther := hServes.longest other (h.fewer other hOther)

theorem unserved (h : Alike dropped k m m') {args : List String} (hNone : ∀ pattern ∈ m.patterns, ¬ pattern <+: args) :
    ∀ pattern ∈ m'.patterns, ¬ pattern <+: args := fun pattern hMem => hNone pattern (h.fewer pattern hMem)

theorem shelves_restocked (h : Alike dropped k m m') {m₁ m₁' : MockCommand} {target : Pattern} (f : Shelf → Shelf)
    (hLeft : Restocked m target (f (m.shelf target)) m₁) (hLeft' : Restocked m' target (f (m'.shelf target)) m₁')
    (pattern : Pattern) (hKey : key pattern = k) : m₁'.shelf pattern = m₁.shelf pattern := by
  by_cases hTarget : key target = k
  · rw [hLeft.shelf_eq, hLeft'.shelf_eq, h.shelves target hTarget, h.shelves pattern hKey]
  · have hAside : key pattern ≠ key target := fun hSame => hTarget (hSame.symm.trans hKey)
    rw [hLeft.aside hAside, hLeft'.aside hAside, h.shelves pattern hKey]

theorem drop (h : Alike dropped k m m') (hDropped : ∀ pattern, dropped pattern = true → key pattern ≠ k)
    {target : Pattern} (hTarget : e.target m = some target) (hDrop : dropped target = true) :
    Alike dropped k (after name m e) m' where
  slots pattern hKept := by
    have hOther : e.target m ≠ some pattern := by
      rw [hTarget]
      rintro ⟨⟩
      rw [hDrop] at hKept
      cases hKept
    rw [slot_after, Event.fill_of_target_ne hOther, h.slots pattern hKept]
  fewer pattern hMem := mem_patterns_after (h.fewer pattern hMem) e
  shelves pattern hKey := by
    have hAside : key pattern ≠ key target := hKey ▸ (hDropped target hDrop).symm
    rw [h.shelves pattern hKey]
    cases e with
    | queue response p =>
      cases hTarget
      exact ((restocked_enqueue m response target).aside hAside).symm
    | handle reaction p => rfl
    | call p s =>
      obtain ⟨⟨found, handler⟩, hFound, rfl⟩ := Option.map_eq_some_iff.mp hTarget
      exact ((restocked_call name s (dispatch_eq_some_iff.mp hFound)).2.aside hAside).symm

theorem keep (h : Alike dropped k m m') (hKeep : ∀ target, e.target m = some target → dropped target = false) :
    Alike dropped k (after name m e) (after name m' e) where
  slots pattern hKept := by rw [slot_after, slot_after, h.slots pattern hKept]
  fewer pattern hMem := by
    have hSlot : ((after name m' e).slot pattern).1.isSome = true := mem_patterns_iff.mp hMem
    cases hDrop : dropped pattern with
    | false =>
      rw [slot_after, h.slots pattern hDrop, ← slot_after] at hSlot
      exact mem_patterns_iff.mpr hSlot
    | true =>
      have hOther : e.target m ≠ some pattern := fun hTarget => nomatch hDrop.symm.trans (hKeep pattern hTarget)
      rw [slot_after, Event.fill_of_target_ne hOther] at hSlot
      exact mem_patterns_after (h.fewer pattern (mem_patterns_iff.mpr hSlot)) e
  shelves := by
    cases e with
    | queue response p =>
      exact h.shelves_restocked (·.enqueue response) (restocked_enqueue m response p) (restocked_enqueue m' response p)
    | handle reaction p => exact h.shelves
    | call p s =>
      rcases m.serves_or_none p.args with ⟨served, handler, hServes⟩ | hNone
      · have hServes' := h.serves (hKeep served (target_call s hServes)) hServes
        exact h.shelves_restocked (fun shelf => (shelf.call name s p handler).2) (restocked_call name s hServes).2
          (restocked_call name s hServes').2
      · intro pattern hKey
        exact (shelf_call_of_none s (h.unserved hNone) pattern).trans
          ((h.shelves pattern hKey).trans (shelf_call_of_none s hNone pattern).symm)

theorem target_eq (h : Alike dropped k m m') (hKeep : ∀ target, e.target m = some target → dropped target = false) :
    e.target m' = e.target m := by
  cases e with
  | queue response p => rfl
  | handle reaction p => rfl
  | call p s =>
    rcases m.serves_or_none p.args with ⟨served, handler, hServes⟩ | hNone
    · have hServes' := h.serves (hKeep served (target_call s hServes)) hServes
      rw [target_call s hServes, target_call s hServes']
    · rw [Event.target, Event.target, dispatch_eq_none_iff.mpr hNone, dispatch_eq_none_iff.mpr (h.unserved hNone)]

theorem outcome?_eq (h : Alike dropped k m m') (hKeep : ∀ target, e.target m = some target → dropped target = false)
    {pattern : Pattern} (hKey : key pattern = k) : e.outcome? name pattern m' = e.outcome? name pattern m := by
  cases e with
  | queue response p => rfl
  | handle reaction p => rfl
  | call p s =>
    rw [Event.outcome?, Event.outcome?, h.target_eq hKeep]
    split
    · next hTarget =>
      obtain ⟨⟨found, handler⟩, hFound, rfl⟩ := Option.map_eq_some_iff.mp hTarget
      have hServes := dispatch_eq_some_iff.mp hFound
      have hServes' := h.serves (hKeep found hTarget) hServes
      rw [(restocked_call name s hServes).1, (restocked_call name s hServes').1, h.shelves found hKey]
    · rfl

theorem outcomes_eq (h : Alike dropped k m m') (hDropped : ∀ pattern, dropped pattern = true → key pattern ≠ k)
    {pattern : Pattern} (hKey : key pattern = k) (events : List Event) :
    outcomes name pattern m' (without name dropped m events) = outcomes name pattern m events := by
  -- `m` goes through the whole history, `m'` through what is left of it.
  induction events generalizing m m' with
  | nil => rfl
  | cons e rest ih =>
    rw [without, outcomes]
    split
    · next hDrop =>
      obtain ⟨target, hTarget, hDrop⟩ := (Option.any_eq_true _ _).mp hDrop
      have hOther : e.target m ≠ some pattern := by
        rw [hTarget]
        rintro ⟨⟩
        exact hDropped pattern hDrop hKey
      rw [Event.outcome?_of_target_ne hOther, ih (h.drop hDropped hTarget hDrop)]
      rfl
    · next hKeep =>
      have hKeep : ∀ target, e.target m = some target → dropped target = false := by
        intro target hTarget
        rw [hTarget] at hKeep
        exact Bool.eq_false_iff.mpr hKeep
      rw [outcomes, h.outcome?_eq hKeep hKey, ih (h.keep hKeep)]

end Alike

/-- Patterns of different parts have different keys, and what happens under one is of no account to the other: its
calls come to the same without anything that was queued, registered or called for under patterns of other parts. -/
theorem patterns_independent (name : String) (m : MockCommand) (events : List Event) :
    (∀ p q : Pattern, key p = key q ↔ parts p = parts q) ∧
    ∀ (pattern : Pattern) (dropped : Pattern → Bool), (∀ other, dropped other = true → parts other ≠ parts pattern) →
      outcomes name pattern m (without name dropped m events) = outcomes name pattern m events := by
  refine ⟨fun p q => key_eq_iff, fun pattern dropped hParts => ?_⟩
  have hSame : Alike dropped (key pattern) m m := ⟨fun _ _ => rfl, fun _ => id, fun _ _ => rfl⟩
  exact hSame.outcomes_eq (fun other hDrop => mt key_eq_iff.mp (hParts other hDrop)) rfl events

/-- A response for all calls and two for those with an argument. -/
def interleaved : List Event :=
  [.queue ⟨[1], none⟩ ["m"], .queue ⟨[2], none⟩ ["m", "a"], .call (bare ["m"]) .willing, .queue ⟨[3], none⟩ ["m", "a"],
    .call (bare ["m", "a", "b"]) .willing, .call (bare ["m"]) .willing, .call (bare ["m", "a"]) .willing]

theorem patterns_independent_interleaved :
    (∀ other : Pattern, (other == ["m"]) = true → parts other ≠ parts ["m", "a"]) ∧
    without "m" (· == ["m"]) .empty interleaved =
      [.queue ⟨[2], none⟩ ["m", "a"], .queue ⟨[3], none⟩ ["m", "a"], .call (bare ["m", "a", "b"]) .willing,
        .call (bare ["m", "a"]) .willing] ∧
    outcomes "m" ["m", "a"] .empty (without "m" (· == ["m"]) .empty interleaved) =
      [([⟨.write .out [2], none⟩], .ok ()), ([⟨.write .out [3], none⟩], .ok ())] := by
  have hParts : ∀ other : Pattern, (other == ["m"]) = true → parts other ≠ parts ["m", "a"] := by
    intro other hOther
    rw [eq_of_beq hOther]
    decide
  refine ⟨hParts, rfl, ?_⟩
  exact ((patterns_independent "m" .empty interleaved).2 ["m", "a"] (· == ["m"]) hParts).trans rfl

-- The calls of one pattern are given what was captured for another with the same parts.
example :
    outcomes "m" ["<default>"] .empty
      [.queue ⟨[1], none⟩ [], .queue ⟨[2], none⟩ ["<default>"], .call (bare ["m"]) .willing,
        .call (bare ["<default>"]) .willing] = [([⟨.write .out [1], none⟩], .ok ())] := rfl

end Histories

end Pipework.Mock
