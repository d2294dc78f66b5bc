import Pipework.Proofs.Mock.Call

/-!
# Queues of responses

Calls are given the responses of a queue in the order in which they were queued, and the last one again. A queue
is told here by what was queued and how many of it have been given.
-/

namespace Pipework

/-- What a call comes to that has `r?` coming, once it has read its input. -/
def Proc.given (p : Proc) (s : Surroundings) (r? : Option Response) : Outcome :=
  match p.intake s with
  | (past, .error fault) => (past, .error fault)
  | (past, .ok _) =>
    match r? with
    | none => (past, .ok ())
    | some r => r.give s past

namespace Mock

/-- Whether something happens with regard to the queue of `pattern`, and to nothing else. -/
def Event.IsFor (pattern : Pattern) : Event → Prop
  | .queue _ p => p = pattern
  | .handle _ _ => False
  | .call p _ => pattern <+: p.args

/-- A queue as it is meant to be. -/
structure Queue where
  queued : List Response
  given : Nat

namespace Queue

/-- The first response that has not been given, or else the last one. -/
def next? (q : Queue) : Option Response := q.queued[q.given]?.or q.queued.getLast?

def step (q : Queue) : Event → Queue
  | .queue response _ => { q with queued := q.queued ++ [response] }
  | .handle _ _ => q
  | .call p s =>
    match (p.intake s).2 with
    | .ok _ => { q with given := min (q.given + 1) q.queued.length }
    | .error _ => q

def ofEvents (events : List Event) : Queue := events.foldl step ⟨[], 0⟩

/-- The call `e` is the first to be given the last response, and fails. -/
def Spoils (q : Queue) : Event → Prop
  | .call p s => ∃ past got r, p.intake s = (past, .ok got) ∧ q.given + 1 = q.queued.length ∧
      q.queued[q.given]? = some r ∧ (r.give s past).fails = true
  | _ => False

theorem mem_queued {events : List Event} {r : Response} (h : r ∈ (ofEvents events).queued) :
    ∃ pattern, .queue r pattern ∈ events := by
  induction events using List.reverseRecOn with
  | nil => cases h
  | append_singleton events e ih =>
    rw [ofEvents, List.foldl_concat] at h
    have hStep : r ∈ (ofEvents events).queued ∨ ∃ pattern, e = .queue r pattern := by
      cases e with
      | queue r' pattern =>
        rcases List.mem_append.mp h with hOld | hNew
        · exact .inl hOld
        · exact .inr ⟨pattern, by rw [List.mem_singleton.mp hNew]⟩
      | handle reaction pattern => exact .inl h
      | call p s =>
        refine .inl ?_
        rw [step] at h
        split at h <;> exact h
    rcases hStep with hOld | ⟨pattern, rfl⟩
    · obtain ⟨pattern, hMem⟩ := ih hOld
      exact ⟨pattern, List.mem_append_left _ hMem⟩
    · exact ⟨pattern, List.mem_append_right _ (List.mem_singleton_self _)⟩

theorem not_spoils {events : List Event} (hFaults : ∀ r pattern, .queue r pattern ∈ events → r.fault = none)
    (hTaken : ∀ p s, .call p s ∈ events → ∀ past data, s past (.write .out data) = none) (before : List Event)
    (e : Event) (rest : List Event) (hSplit : events = before ++ e :: rest) : ¬ (ofEvents before).Spoils e := by
  subst hSplit
  cases e with
  | queue r pattern => exact id
  | handle reaction pattern => exact id
  | call p s =>
    rintro ⟨past, got, r, -, -, hHead, hFails⟩
    obtain ⟨pattern, hMem⟩ := mem_queued (List.mem_of_getElem? hHead)
    have hFault := hFaults r pattern (List.mem_append_left _ hMem)
    have hRefusal := hTaken p s (List.mem_append_right _ List.mem_cons_self) past r.text
    rw [Response.give, hRefusal, hFault] at hFails
    split at hFails <;> cases hFails

end Queue

/-- A queue as it is: a response that fails when there is none behind it is given again, with what is left of it. -/
structure Turns extends Queue where
  /-- What is left of the response that was given last. -/
  last : Option Response
  /-- That response failed when there was none behind it, and has not been given since with others behind it. -/
  stuck : Bool

namespace Turns

def empty : Turns := ⟨⟨[], 0⟩, none, false⟩

def next? (t : Turns) : Option Response := if t.stuck then t.last else t.queued[t.given]?.or t.last

def take (t : Turns) (failed : Bool) : Turns :=
  if t.stuck then { t with stuck := failed && t.given == t.queued.length }
  else if t.given + 1 < t.queued.length then { t with given := t.given + 1, last := t.queued[t.given]? }
  else if t.given < t.queued.length then
    { t with
      given := t.given + 1
      last := if failed then (t.queued[t.given]?).map ({ · with text := [] }) else t.queued[t.given]?
      stuck := failed }
  else t

def step (t : Turns) : Event → Turns
  | .queue response _ => { t with queued := t.queued ++ [response] }
  | .handle _ _ => t
  | .call p s =>
    match (p.intake s).2 with
    | .ok _ => t.take (p.given s t.next?).fails
    | .error _ => t

def ofEvents (events : List Event) : Turns := events.foldl step empty

def front (t : Turns) : List Response := (if t.stuck then t.last.toList else []) ++ t.queued.drop t.given

structure Sound (t : Turns) : Prop where
  given_le : t.given ≤ t.queued.length
  /-- What is stuck has given its text. -/
  left : t.stuck = true → ∃ last, t.last = some last ∧ last.text = []
  origin : ∀ last, t.last = some last → 0 < t.given ∧ ∃ r, t.queued[t.given - 1]? = some r ∧ r.fault = last.fault

variable {t : Turns}

theorem front_of_stuck {last : Response} (hStuck : t.stuck = true) (hLast : t.last = some last) :
    t.front = last :: t.queued.drop t.given := by
  simp [front, hStuck, hLast]

theorem front_of_not_stuck (hStuck : t.stuck = false) : t.front = t.queued.drop t.given := by
  simp [front, hStuck]

theorem Sound.cases_front (h : t.Sound) {r : Response} {rest : List Response} (hFront : t.front = r :: rest) :
    (t.stuck = true ∧ t.last = some r ∧ r.text = [] ∧ rest = t.queued.drop t.given) ∨
      (t.stuck = false ∧ t.given < t.queued.length ∧ t.queued[t.given]? = some r ∧
        rest = t.queued.drop (t.given + 1)) := by
  cases hStuck : t.stuck with
  | true =>
    obtain ⟨last, hLast, hText⟩ := h.left hStuck
    rw [front_of_stuck hStuck hLast] at hFront
    cases hFront
    exact .inl ⟨rfl, hLast, hText, rfl⟩
  | false =>
    rw [front_of_not_stuck hStuck] at hFront
    have hLt : t.given < t.queued.length := by
      by_contra hNot
      rw [List.drop_eq_nil_of_le (Nat.not_lt.mp hNot)] at hFront
      cases hFront
    rw [List.drop_eq_getElem_cons hLt] at hFront
    cases hFront
    exact .inr ⟨rfl, hLt, List.getElem?_eq_getElem hLt, rfl⟩

theorem Sound.next?_of_front (h : t.Sound) {r : Response} {rest : List Response} (hFront : t.front = r :: rest) :
    t.next? = some r := by
  rcases h.cases_front hFront with ⟨hStuck, hLast, -, -⟩ | ⟨hStuck, -, hHead, -⟩
  · rw [next?, if_pos hStuck, hLast]
  · simp [next?, hStuck, hHead]

@[simp] theorem queued_take (t : Turns) (failed : Bool) : (t.take failed).queued = t.queued := by
  unfold take
  split
  · rfl
  · split
    · rfl
    · split <;> rfl

theorem Sound.take_behind (h : t.Sound) {r r' : Response} {rest : List Response} (hFront : t.front = r :: r' :: rest)
    (failed : Bool) : (t.take failed).Sound ∧ (t.take failed).front = r' :: rest := by
  rcases h.cases_front hFront with ⟨hStuck, hLast, -, hRest⟩ | ⟨hStuck, hLt, hHead, hRest⟩
  · have hBehind : t.given ≠ t.queued.length := by
      intro hEnd
      simp [hEnd] at hRest
    have hTake : t.take failed = { t with stuck := false } := by simp [take, hStuck, hBehind]
    rw [hTake]
    exact ⟨⟨h.given_le, (fun hNot => nomatch hNot), h.origin⟩, (front_of_not_stuck rfl).trans hRest.symm⟩
  · have hBehind : t.given + 1 < t.queued.length := by
      by_contra hNot
      rw [List.drop_eq_nil_of_le (Nat.not_lt.mp hNot)] at hRest
      cases hRest
    have hTake : t.take failed = { t with given := t.given + 1, last := t.queued[t.given]? } := by
      simp [take, hStuck, hBehind]
    rw [hTake]
    refine ⟨⟨hBehind.le, (fun hNot => nomatch hStuck.symm.trans hNot), fun last hLast => ?_⟩, ?_⟩
    · exact ⟨Nat.succ_pos _, last, hLast, rfl⟩
    · exact Eq.trans (front_of_not_stuck (by exact hStuck)) hRest.symm

/-- What the last response in the queue leaves behind: itself without its text if it failed, and nothing else. -/
theorem Sound.take_last (h : t.Sound) {r : Response} (hFront : t.front = [r]) (failed : Bool) :
    (t.take failed).Sound ∧ (t.take failed).given = t.queued.length ∧ (t.take failed).stuck = failed ∧
      (t.take failed).last = some (if failed then { r with text := [] } else r) := by
  rcases h.cases_front hFront with ⟨hStuck, hLast, hText, hRest⟩ | ⟨hStuck, hLt, hHead, hRest⟩
  · have hEnd : t.given = t.queued.length :=
      Nat.le_antisymm h.given_le (List.drop_eq_nil_iff.mp hRest.symm)
    have hSame : r = { r with text := [] } := by rw [← hText]
    have hTake : t.take failed = { t with stuck := failed } := by simp [take, hStuck, hEnd]
    rw [hTake]
    refine ⟨⟨h.given_le, fun _ => ⟨r, hLast, hText⟩, h.origin⟩, hEnd, rfl, ?_⟩
    rw [← hSame, ite_self]
    exact hLast
  · have hEnd : t.given + 1 = t.queued.length :=
      Nat.le_antisymm hLt (List.drop_eq_nil_iff.mp hRest.symm)
    have hTake : t.take failed = { t with
        given := t.given + 1
        last := some (if failed then { r with text := [] } else r)
        stuck := failed } := by
      obtain ⟨_, rfl⟩ := List.getElem?_eq_some_iff.mp hHead
      cases failed <;> simp [take, hStuck, hLt, hEnd]
    rw [hTake]
    refine ⟨⟨hEnd.le, ?_, fun last hLast => ⟨Nat.succ_pos _, r, hHead, ?_⟩⟩, hEnd, rfl, rfl⟩
    · rintro rfl
      exact ⟨{ r with text := [] }, rfl, rfl⟩
    · rw [← Option.some.inj hLast]
      split <;> rfl

theorem take_all (hStuck : t.stuck = false) (hAll : t.given = t.queued.length) (failed : Bool) :
    t.take failed = t := by
  rw [take, if_neg (by simp [hStuck]), if_neg (by omega), if_neg (by omega)]

theorem front_queue (h : t.Sound) (r : Response) (p : Pattern) : (t.step (.queue r p)).front = t.front ++ [r] := by
  show (if t.stuck then t.last.toList else []) ++ (t.queued ++ [r]).drop t.given = t.front ++ [r]
  rw [List.drop_append_of_le_length h.given_le, front, List.append_assoc]

theorem sound_queue (h : t.Sound) (r : Response) (p : Pattern) : (t.step (.queue r p)).Sound where
  given_le := by
    have hLe := h.given_le
    simp [step]
    omega
  left := h.left
  origin last hLast := by
    obtain ⟨hPos, origin, hOrigin, hFault⟩ := h.origin last hLast
    refine ⟨hPos, origin, ?_, hFault⟩
    have hLt : t.given - 1 < t.queued.length := by
      have hLe := h.given_le
      omega
    exact (List.getElem?_append_left hLt).trans hOrigin

/-- The queue of `pattern` in a mock that has no other. -/
inductive Is (t : Turns) (m : MockCommand) (pattern : Pattern) : Prop
  | empty (hTurns : t = .empty) (hHandlers : m.handlers = []) (hQueue : m.responses.lookup pattern = none)
    (hCaptured : m.captured.lookup (key pattern) = none) : Is t m pattern
  | waiting (hSound : t.Sound) (hFront : t.front ≠ []) (hHandlers : m.handlers = [(pattern, .queue)])
    (hQueue : m.responses.lookup pattern = some t.front) (hCaptured : m.captured.lookup (key pattern) = none) :
    Is t m pattern
  | repeating {r : Response} {held : List Response} (hSound : t.Sound) (hStuck : t.stuck = false)
    (hAll : t.given = t.queued.length) (hLast : t.last = some r) (hFault : r.fault = none)
    (hHandlers : m.handlers = [(pattern, .queue)]) (hQueue : m.responses.lookup pattern = some held)
    (hCaptured : m.captured.lookup (key pattern) = some r.text) : Is t m pattern

variable {m : MockCommand} {pattern : Pattern}

theorem Is.queue (h : t.Is m pattern) (r : Response) :
    (t.step (.queue r pattern)).Is (m.enqueue r pattern) pattern := by
  cases h with
  | empty hTurns hHandlers hQueue hCaptured =>
    subst hTurns
    have hSound : (Turns.empty.step (.queue r pattern)).Sound :=
      ⟨Nat.zero_le _, (fun hNot => nomatch hNot), fun _ hNot => nomatch hNot⟩
    refine .waiting hSound (List.cons_ne_nil r []) ?_ ?_ ?_
    · rw [handlers_enqueue, hQueue, hHandlers]
      rfl
    · simp [enqueue, hQueue, register, List.lookup_append, front, step, Turns.empty]
    · simpa [enqueue, hQueue, register] using hCaptured
  | waiting hSound hFront hHandlers hQueue hCaptured =>
    have hEnqueue : m.enqueue r pattern =
        { m with responses := assign pattern (t.front ++ [r]) m.responses } := by
      simp [enqueue, hQueue, hCaptured]
    rw [hEnqueue]
    have hFront' := front_queue hSound r pattern
    refine .waiting (sound_queue hSound r pattern) (by simp [hFront']) hHandlers ?_ hCaptured
    rw [lookup_assign, if_pos rfl, hFront']
  | @repeating last held hSound hStuck hAll hLast hFault hHandlers hQueue hCaptured =>
    have hEnqueue : m.enqueue r pattern =
        { m with
          captured := m.captured.filter (·.1 ≠ key pattern)
          responses := assign pattern [r] m.responses } := by
      simp [enqueue, hQueue, hCaptured]
    have hFront : (t.step (.queue r pattern)).front = [r] := by
      rw [front_queue hSound, front_of_not_stuck hStuck, hAll, List.drop_length, List.nil_append]
    rw [hEnqueue]
    refine .waiting (sound_queue hSound r pattern) (by simp [hFront]) hHandlers ?_ ?_
    · rw [lookup_assign, if_pos rfl, hFront]
    · exact lookup_of_not_mem_keys (by simp)

theorem Is.record (h : t.Is m pattern) (call : Call) : t.Is (m.record call) pattern := by
  cases h with
  | empty hTurns hHandlers hQueue hCaptured => exact .empty hTurns hHandlers hQueue hCaptured
  | waiting hSound hFront hHandlers hQueue hCaptured => exact .waiting hSound hFront hHandlers hQueue hCaptured
  | repeating hSound hStuck hAll hLast hFault hHandlers hQueue hCaptured =>
    exact .repeating hSound hStuck hAll hLast hFault hHandlers hQueue hCaptured

/-- The last response in the queue is repeated if it can be given, and stays without its text if it cannot. -/
theorem Is.after_last {r : Response} (hSound : t.Sound) (hFront : t.front = [r])
    (hHandlers : m.handlers = [(pattern, .queue)]) (hCaptured : m.captured.lookup (key pattern) = none) {o : Outcome}
    (hFault : o.fails = false → r.fault = none) :
    (t.take o.fails).Is
      (kept { m with responses := assign pattern [{ r with text := [] }] m.responses } r (some pattern) o) pattern := by
  obtain ⟨hSound', hAll, hStuck, hLast⟩ := hSound.take_last hFront o.fails
  rw [← queued_take t o.fails] at hAll
  have hHeld : (assign pattern [{ r with text := [] }] m.responses).lookup pattern = some [{ r with text := [] }] :=
    (lookup_assign pattern pattern _ m.responses).trans (if_pos rfl)
  rw [kept]
  cases hFails : o.fails with
  | false =>
    rw [hFails] at hSound' hAll hStuck hLast
    rw [if_neg Bool.false_ne_true]
    refine .repeating hSound' hStuck hAll hLast (hFault hFails) hHandlers hHeld ?_
    exact (lookup_assign (key pattern) (key pattern) _ m.captured).trans (if_pos rfl)
  | true =>
    rw [hFails] at hSound' hAll hStuck hLast
    have hFront' : (t.take true).front = [{ r with text := [] }] := by
      rw [front_of_stuck hStuck hLast, hAll, List.drop_length]
      rfl
    rw [if_pos rfl]
    exact .waiting hSound' (by simp [hFront']) hHandlers (hHeld.trans (congrArg some hFront'.symm)) hCaptured

/-- What the mock has is what comes next, and what it keeps is the queue after that has been given. -/
theorem Is.follow_serve (h : t.Is m pattern) (hHandlers : m.handlers = [(pattern, .queue)]) (name : String)
    (s : Surroundings) (past : List Deed) (got : Option Bytes) :
    ∃ r, t.next? = some r ∧ (follow name s past got (m.serve pattern)).1 = r.give s past ∧
      (t.take (r.give s past).fails).Is (follow name s past got (m.serve pattern)).2 pattern := by
  cases h with
  | empty hTurns hNone hQueue hCaptured =>
    rw [hNone] at hHandlers
    cases hHandlers
  | waiting hSound hFront hHandlers hQueue hCaptured =>
    obtain ⟨r, rest, hFront⟩ := List.exists_cons_of_ne_nil hFront
    refine ⟨r, hSound.next?_of_front hFront, ?_⟩
    rw [hFront] at hQueue
    cases rest with
    | nil =>
      rw [serve_of_last hCaptured hQueue]
      exact ⟨rfl, .after_last hSound hFront hHandlers hCaptured Response.fault_of_give⟩
    | cons r' rest =>
      rw [serve_of_next hCaptured hQueue]
      obtain ⟨hSound', hFront'⟩ := hSound.take_behind hFront (r.give s past).fails
      refine ⟨rfl, .waiting hSound' (by simp [hFront']) hHandlers ?_ hCaptured⟩
      rw [hFront']
      exact (lookup_assign pattern pattern _ m.responses).trans (if_pos rfl)
  | @repeating last held hSound hStuck hAll hLast hFault hHandlers hQueue hCaptured =>
    have hNext : t.next? = some last := by simp [next?, hStuck, hAll, hLast]
    have hSame : (⟨last.text, none⟩ : Response) = last := by rw [← hFault]
    rw [serve_of_captured hCaptured, hSame]
    refine ⟨last, hNext, rfl, ?_⟩
    rw [take_all hStuck hAll]
    exact .repeating hSound hStuck hAll hLast hFault hHandlers hQueue hCaptured

theorem Is.handlers (h : t.Is m pattern) : t = .empty ∧ m.handlers = [] ∨ m.handlers = [(pattern, .queue)] := by
  cases h with
  | empty hTurns hHandlers => exact .inl ⟨hTurns, hHandlers⟩
  | waiting _ _ hHandlers => exact .inr hHandlers
  | repeating _ _ _ _ _ hHandlers => exact .inr hHandlers

theorem Is.call (h : t.Is m pattern) (name : String) {p : Proc} (hp : pattern <+: p.args) (s : Surroundings) :
    (call name s m p).1 = p.given s t.next? ∧ (t.step (.call p s)).Is (call name s m p).2 pattern := by
  rw [call_eq, step, Proc.given]
  rcases p.intake s with ⟨past, fault | got⟩
  · exact ⟨rfl, h⟩
  dsimp only
  rcases h.handlers with ⟨rfl, hHandlers⟩ | hHandlers
  · rw [receive_of_none (by simp [patterns, hHandlers])]
    exact ⟨rfl, h.record _⟩
  · have hServes : m.Serves p.args pattern .queue :=
      ⟨by simp [hHandlers], hp, fun other hOther _ => by simp_all [patterns]⟩
    rw [receive_of_serves hServes]
    obtain ⟨r, hNext, hOutcome, hAfter⟩ := (h.record _).follow_serve hHandlers name s past got
    rw [hNext]
    exact ⟨hOutcome, hAfter⟩

theorem is_ofEvents (name : String) {events : List Event} (hFor : ∀ e ∈ events, e.IsFor pattern) :
    (ofEvents events).Is (events.foldl (Mock.after name) .empty) pattern := by
  induction events using List.reverseRecOn with
  | nil => exact .empty rfl rfl rfl rfl
  | append_singleton events e ih =>
    have ih := ih fun e he => hFor e (List.mem_append_left _ he)
    have hLast : e.IsFor pattern := hFor e (List.mem_append_right _ (List.mem_singleton_self e))
    rw [ofEvents, List.foldl_concat, List.foldl_concat]
    cases e with
    | queue r p =>
      cases hLast
      exact ih.queue r
    | handle reaction p => exact hLast.elim
    | call p s => exact (ih.call name hLast s).2

/-- Once all responses have been given, the last one is repeated if it could be given, and is stuck without its text
if it could not; with a fault of its own it never can. -/
theorem Is.all_given (h : t.Is m pattern) (hAll : t.given = t.queued.length) {last : Response}
    (hLast : t.queued.getLast? = some last) :
    (last.fault.isSome → t.stuck = true) ∧ (t.stuck = true → t.last = some ⟨[], last.fault⟩) := by
  have hOrigin {left : Response} (hSound : t.Sound) (hLeft : t.last = some left) : last.fault = left.fault := by
    obtain ⟨-, r, hr, hFault⟩ := hSound.origin left hLeft
    rw [hAll, ← List.getLast?_eq_getElem?, hLast] at hr
    rw [← hFault, Option.some.inj hr]
  cases h with
  | empty hTurns =>
    rw [hTurns] at hLast
    cases hLast
  | waiting hSound hFront =>
    have hStuck : t.stuck = true := by
      by_contra hNot
      rw [front_of_not_stuck (Bool.eq_false_iff.mpr hNot), hAll, List.drop_length] at hFront
      exact hFront rfl
    obtain ⟨left, hLeft, hText⟩ := hSound.left hStuck
    refine ⟨fun _ => hStuck, fun _ => ?_⟩
    rw [hLeft, hOrigin hSound hLeft, ← hText]
  | repeating hSound hStuck _ hLeft hFault =>
    rw [hOrigin hSound hLeft, hFault]
    exact ⟨(fun hNot => nomatch hNot), fun hNot => nomatch hStuck.symm.trans hNot⟩

end Turns

section Order

/-- Nothing is stuck, and what is repeated is the last response. -/
structure Turns.Agrees (t : Turns) (q : Queue) : Prop where
  same : t.toQueue = q
  free : t.stuck = false
  given_le : q.given ≤ q.queued.length
  last : q.given = q.queued.length → t.last = q.queued.getLast?

variable {t : Turns} {q : Queue}

theorem Turns.Agrees.next?_eq (h : t.Agrees q) : t.next? = q.next? := by
  obtain ⟨rfl, hFree, hLe, hLast⟩ := h
  rw [Turns.next?, hFree, if_neg Bool.false_ne_true, Queue.next?]
  rcases hLe.lt_or_eq with hLt | hAll
  · rw [List.getElem?_eq_getElem hLt, Option.some_or, Option.some_or]
  · rw [hLast hAll]

theorem Turns.Agrees.step (h : t.Agrees q) {e : Event} (hKept : ¬ q.Spoils e) : (t.step e).Agrees (q.step e) := by
  have hNext := h.next?_eq
  obtain ⟨rfl, hFree, hLe, hLast⟩ := h
  cases e with
  | queue r p =>
    refine ⟨rfl, hFree, hLe.trans (by simp [Queue.step]), fun hAll => ?_⟩
    simp [Queue.step] at hAll
    omega
  | handle reaction p => exact ⟨rfl, hFree, hLe, hLast⟩
  | call p s =>
    rw [Turns.step, Queue.step, Proc.given]
    rcases hIntake : p.intake s with ⟨past, fault | got⟩
    · exact ⟨rfl, hFree, hLe, hLast⟩
    dsimp only
    rcases hLe.lt_or_eq with hLt | hAll
    · obtain ⟨r, hHead⟩ : ∃ r, t.queued[t.given]? = some r := ⟨_, List.getElem?_eq_getElem hLt⟩
      rw [hNext, Queue.next?, hHead, Option.some_or]
      by_cases hBehind : t.given + 1 < t.queued.length
      · have hMin : min (t.given + 1) t.queued.length = t.given + 1 := min_eq_left hBehind.le
        simp only [Turns.take, hFree, hBehind, hMin, if_true, Bool.false_eq_true, if_false]
        exact ⟨rfl, rfl, hBehind.le, fun hEnd => absurd hEnd hBehind.ne⟩
      · have hEnd : t.given + 1 = t.queued.length := Nat.le_antisymm hLt (Nat.not_lt.mp hBehind)
        have hTaken : (r.give s past).fails = false :=
          Bool.eq_false_iff.mpr fun hFails => hKept ⟨past, got, r, hIntake, hEnd, hHead, hFails⟩
        have hMin : min (t.given + 1) t.queued.length = t.given + 1 := min_eq_left hEnd.le
        simp only [Turns.take, hFree, hBehind, hLt, hTaken, hMin, if_true, Bool.false_eq_true, if_false]
        refine ⟨rfl, rfl, hEnd.le, fun _ => ?_⟩
        rw [List.getLast?_eq_getElem?, ← hEnd]
        rfl
    · rw [Turns.take_all hFree hAll, hAll, min_eq_right (Nat.le_succ _), ← hAll]
      exact ⟨rfl, hFree, hLe, hLast⟩

theorem Turns.agrees_ofEvents {events : List Event}
    (hKept : ∀ before e rest, events = before ++ e :: rest → ¬ (Queue.ofEvents before).Spoils e) :
    (Turns.ofEvents events).Agrees (Queue.ofEvents events) := by
  induction events using List.reverseRecOn with
  | nil => exact ⟨rfl, rfl, le_rfl, fun _ => rfl⟩
  | append_singleton events e ih =>
    have ih := ih fun before e' rest hSplit =>
      hKept before e' (rest ++ [e]) (by rw [hSplit, List.append_assoc, List.cons_append])
    rw [Turns.ofEvents, Queue.ofEvents, List.foldl_concat, List.foldl_concat]
    exact ih.step (hKept events e [] rfl)

variable {pattern : Pattern} {events : List Event}

/-- Responses are given in the order in which they were queued, each in full; the last one is given again until
there is another. This holds as long as no call is given the last response first and fails. -/
theorem given_in_order (name : String) (hFor : ∀ e ∈ events, e.IsFor pattern)
    (hKept : ∀ before e rest, events = before ++ e :: rest → ¬ (Queue.ofEvents before).Spoils e) {p : Proc}
    (hp : pattern <+: p.args) (s : Surroundings) :
    (call name s (events.foldl (after name) .empty) p).1 = p.given s (Queue.ofEvents events).next? := by
  rw [((Turns.is_ofEvents name hFor).call name hp s).1, (Turns.agrees_ofEvents hKept).next?_eq]

def twoQueued : List Event :=
  [.queue ⟨[1], none⟩ ["m"], .queue ⟨[2], none⟩ ["m"], .call (bare ["m"]) .willing, .call (bare ["m"]) .willing,
    .call (bare ["m"]) .willing]

theorem given_in_order_twoQueued :
    (∀ e ∈ twoQueued, e.IsFor ["m"]) ∧
    (∀ before e rest, twoQueued = before ++ e :: rest → ¬ (Queue.ofEvents before).Spoils e) ∧
    ["m"] <+: (bare ["m"]).args ∧
    (call "m" .willing (twoQueued.foldl (after "m") .empty) (bare ["m"])).1 =
      ([⟨.write .out [2], none⟩], .ok ()) := by
  have hFor : ∀ e ∈ twoQueued, e.IsFor ["m"] := by
    simp [twoQueued, Event.IsFor, bare]
  have hFaults : ∀ r pattern, .queue r pattern ∈ twoQueued → r.fault = none := by
    rintro r pattern hMem
    simp only [twoQueued, List.mem_cons, Event.queue.injEq, reduceCtorEq, List.not_mem_nil, or_false] at hMem
    rcases hMem with ⟨rfl, -⟩ | ⟨rfl, -⟩ <;> rfl
  have hTaken : ∀ p s, .call p s ∈ twoQueued → ∀ past data, s past (.write .out data) = none := by
    simp [twoQueued, Surroundings.willing]
  have hKept := Queue.not_spoils hFaults hTaken
  have hp : ["m"] <+: (bare ["m"]).args := List.prefix_rfl
  exact ⟨hFor, hKept, hp, given_in_order "m" hFor hKept hp .willing⟩

-- A response is lost if it is the last one and nobody takes it: from then on, nothing is given.
example :
    let m := [.queue ⟨[1], none⟩ ["m"], .call (bare ["m"]) .deserted].foldl (after "m") .empty
    (call "m" .willing m (bare ["m"])).1 = ([], .ok ()) := rfl

/-- What calls are given after `new` has been queued, when all responses before it have been given. -/
theorem Turns.Is.call_after_all (name : String) {m : MockCommand} {new : Response} {fault : Option Fault}
    (hQueued : (t.step (.queue new pattern)).Is m pattern) (hAll : t.given = t.queued.length)
    (hLeft : t.stuck = true → t.last = some ⟨[], fault⟩) {p p' : Proc} (hp : pattern <+: p.args)
    (hp' : pattern <+: p'.args) {s s' : Surroundings} {past past' : List Deed} {got got' : Option Bytes}
    (hIntake : p.intake s = (past, .ok got)) (hIntake' : p'.intake s' = (past', .ok got')) :
    if t.stuck then
      (Mock.call name s m p).1 = (⟨[], fault⟩ : Response).give s past ∧
        (Mock.call name s' (Mock.call name s m p).2 p').1 = new.give s' past'
    else (Mock.call name s m p).1 = new.give s past := by
  obtain ⟨hFirst, hNext⟩ := hQueued.call name hp s
  have hNew : (t.queued ++ [new])[t.given]? = some new := by rw [hAll, List.getElem?_concat_length]
  cases hStuck : t.stuck with
  | true =>
    have hComing : (t.step (.queue new pattern)).next? = some ⟨[], fault⟩ := (if_pos hStuck).trans (hLeft hStuck)
    have hFreed : ((t.step (.queue new pattern)).step (.call p s)).next? = some new := by
      simp [Turns.step, hIntake, Turns.take, Turns.next?, hStuck, hAll]
    have hSecond := (hNext.call name hp' s').1
    rw [hComing, Proc.given, hIntake] at hFirst
    rw [hFreed, Proc.given, hIntake'] at hSecond
    exact ⟨hFirst, hSecond⟩
  | false =>
    have hComing : (t.step (.queue new pattern)).next? = some new := by
      simp [Turns.step, Turns.next?, hStuck, hNew]
    rw [hComing, Proc.given, hIntake] at hFirst
    exact hFirst

/-- When all responses have been given, another one that is queued is given next if the last one could be given. If
that failed it is given once more, without its text, and the new one after it. -/
theorem given_after_all (name : String) (hFor : ∀ e ∈ events, e.IsFor pattern)
    (hAll : (Turns.ofEvents events).given = (Turns.ofEvents events).queued.length) {last : Response}
    (hLast : (Turns.ofEvents events).queued.getLast? = some last) (new : Response) {p p' : Proc}
    (hp : pattern <+: p.args) (hp' : pattern <+: p'.args) {s s' : Surroundings} {past past' : List Deed}
    {got got' : Option Bytes} (hIntake : p.intake s = (past, .ok got)) (hIntake' : p'.intake s' = (past', .ok got')) :
    (∀ before q r rest, events = before ++ .call q r :: rest →
      (call name r (before.foldl (after name) .empty) q).1 = q.given r (Turns.ofEvents before).next?) ∧
    (last.fault.isSome → (Turns.ofEvents events).stuck = true) ∧
    let m := (events.foldl (after name) .empty).enqueue new pattern
    if (Turns.ofEvents events).stuck then
      (call name s m p).1 = (⟨[], last.fault⟩ : Response).give s past ∧
        (call name s' (call name s m p).2 p').1 = new.give s' past'
    else (call name s m p).1 = new.give s past := by
  have hIs := Turns.is_ofEvents name hFor
  obtain ⟨hFault, hLeft⟩ := hIs.all_given hAll hLast
  refine ⟨?_, hFault, (hIs.queue new).call_after_all name hAll hLeft hp hp' hIntake hIntake'⟩
  intro before q r rest hSplit
  subst hSplit
  have hBefore : ∀ e ∈ before, e.IsFor pattern := fun e he => hFor e (List.mem_append_left _ he)
  have hq : (Event.call q r).IsFor pattern := hFor _ (List.mem_append_right _ List.mem_cons_self)
  exact ((Turns.is_ofEvents name hBefore).call name hq r).1

def failedLast : List Event :=
  [.queue ⟨[1], some (.plain "offline")⟩ ["m"], .call (bare ["m"]) .willing]

theorem given_after_all_failedLast :
    (∀ e ∈ failedLast, e.IsFor ["m"]) ∧
    (Turns.ofEvents failedLast).given = (Turns.ofEvents failedLast).queued.length ∧
    (Turns.ofEvents failedLast).queued.getLast? = some ⟨[1], some (.plain "offline")⟩ ∧
    ["m"] <+: (bare ["m"]).args ∧ (bare ["m"]).intake .willing = ([], .ok none) ∧
    let m := (failedLast.foldl (after "m") .empty).enqueue ⟨[2], none⟩ ["m"]
    (call "m" .willing m (bare ["m"])).1 = ([], .error (.plain "offline")) ∧
      (call "m" .willing (call "m" .willing m (bare ["m"])).2 (bare ["m"])).1 =
        ([⟨.write .out [2], none⟩], .ok ()) := by
  have hFor : ∀ e ∈ failedLast, e.IsFor ["m"] := by
    simp [failedLast, Event.IsFor, bare]
  have hAll : (Turns.ofEvents failedLast).given = (Turns.ofEvents failedLast).queued.length := rfl
  have hLast : (Turns.ofEvents failedLast).queued.getLast? = some ⟨[1], some (.plain "offline")⟩ := rfl
  have hp : ["m"] <+: (bare ["m"]).args := List.prefix_rfl
  have hIntake : (bare ["m"]).intake .willing = ([], .ok none) := rfl
  obtain ⟨-, hStuck, hGiven⟩ := given_after_all "m" hFor hAll hLast ⟨[2], none⟩ hp hp hIntake hIntake
  rw [if_pos (hStuck rfl)] at hGiven
  exact ⟨hFor, hAll, hLast, hp, hIntake, hGiven⟩

end Order

end Mock

end Pipework
