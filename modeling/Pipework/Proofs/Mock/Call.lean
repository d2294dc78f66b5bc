import Pipework.Builtin.Mocking
import Pipework.Proofs.Mock.Dispatch

/-!
# Calls of a mock

A call runs the builtin of a mock. Here it runs in surroundings that answer its actions in any way, while nobody
else makes use of the mock. What a call comes to is then a matter of three things: what it reads, what the mock
has for it, and whether its output is taken.
-/

namespace Pipework

abbrev Deed := (action : Action) × action.Answer

/-- How actions are answered, which may depend on what has been done before. -/
abbrev Surroundings := (past : List Deed) → (action : Action) → action.Answer

/-- All output is taken, and there is neither input nor anything to look up. -/
def Surroundings.willing : Surroundings := fun _ action =>
  match action with
  | .write _ _ | .flood _ | .lookup _ | .inquire _ => none
  | .read _ | .relay _ => ([], none)
  | .assign _ _ | .pause => ()
  | .workDirectory | .invoke _ _ _ => .ok ""
  | .files _ _ => .ok .nothing
  | .consult _ _ => .nothing

def Surroundings.deserted : Surroundings := fun past action =>
  match action with
  | .write _ _ => some .pipeClosed
  | action => Surroundings.willing past action

/-- What a task has done besides asking its mock, and how it ended. -/
abbrev Outcome := List Deed × Except Fault Unit

def Outcome.fails (o : Outcome) : Bool :=
  match o.2 with
  | .ok () => false
  | .error _ => true

namespace Program

variable {α β : Type} (name : String) (s : Surroundings)

/-- The program at work on the mock called `name`, of which `past` has been done. -/
def play : Program α → List Deed → MockCommand → (List Deed × α) × MockCommand
  | .done result, past, m => ((past, result), m)
  | .act (.consult other ask) next, past, m =>
    if other = name then (next (ask m).2).play past (ask m).1
    else (next (s past (.consult other ask))).play (past ++ [⟨.consult other ask, s past (.consult other ask)⟩]) m
  | .act action next, past, m => (next (s past action)).play (past ++ [⟨action, s past action⟩]) m

theorem play_bind (p : Program α) (f : α → Program β) (past : List Deed) (m : MockCommand) :
    (p.bind f).play name s past m =
      (f (p.play name s past m).1.2).play name s (p.play name s past m).1.1 (p.play name s past m).2 := by
  induction p generalizing past m with
  | done result => rfl
  | act action next ih =>
    cases action with
    | consult other ask =>
      by_cases hName : other = name
      · simp only [bind, play, if_pos hName, ih]
      · simp only [bind, play, if_neg hName, ih]
    | _ => exact ih _ _ _

end Program

/-- How a task ends that has met with `fault`, or with none. -/
def ending : Option Fault → Except Fault Unit
  | none => .ok ()
  | some fault => .error fault

namespace Task

variable {α β : Type} (name : String) (s : Surroundings)

/-- The task at work on the mock called `name`, of which `past` has been done. -/
def play (t : Task α) (past : List Deed) (m : MockCommand) : (List Deed × Except Fault α) × MockCommand :=
  Program.play name s t.run past m

theorem play_bind (t : Task α) (f : α → Task β) (past : List Deed) (m : MockCommand) :
    (t >>= f).play name s past m =
      match t.play name s past m with
      | ((past, .ok a), m) => (f a).play name s past m
      | ((past, .error fault), m) => ((past, .error fault), m) := by
  refine (Program.play_bind name s t.run (ExceptT.bindCont f) past m).trans ?_
  rw [play]
  rcases Program.play name s t.run past m with ⟨⟨past, a | fault⟩, m⟩ <;> rfl

theorem play_consult (ask : MockCommand → MockCommand × Mock.Answer Reaction) (past : List Deed) (m : MockCommand) :
    (perform (.consult name ask)).play name s past m = ((past, .ok (ask m).2), (ask m).1) := if_pos rfl

theorem play_check (fault : Option Fault) (past : List Deed) (m : MockCommand) :
    (check fault).play name s past m = ((past, ending fault), m) := by
  cases fault <;> rfl

theorem play_write (channel : Channel) (data : Bytes) (past : List Deed) (m : MockCommand) :
    (write channel data).play name s past m =
      ((past ++ [⟨.write channel data, s past (.write channel data)⟩], ending (s past (.write channel data))), m) :=
  (play_bind name s (perform (.write channel data)) check past m).trans (play_check name s _ _ m)

theorem play_readAll (past : List Deed) (m : MockCommand) :
    readAll.play name s past m =
      ((past ++ [⟨.read .all, s past (.read .all)⟩],
        (ending (s past (.read .all)).2).map fun _ => (s past (.read .all)).1), m) := by
  refine (play_bind name s (perform (.read .all)) _ past m).trans ?_
  refine (play_bind name s (check (s past (.read .all)).2) _ _ m).trans ?_
  rw [play_check]
  cases (s past (.read .all)).2 <;> rfl

def Apart (t : Task α) : Prop := ∀ past m m', t.play name s past m = ((t.play name s past m').1, m)

variable {name s} {t : Task α} {f : α → Task β}

theorem Apart.bind (ht : Apart name s t) (hf : ∀ a, Apart name s (f a)) : Apart name s (t >>= f) := by
  intro past m m'
  rw [play_bind, play_bind, ht past m m', ht past m' m']
  rcases (t.play name s past m').1 with ⟨past', a | fault⟩
  · rfl
  · exact hf fault past' m m'

theorem apart_check (fault : Option Fault) : Apart name s (check fault) := by
  intro past m m'
  rw [play_check, play_check]

theorem apart_write (channel : Channel) (data : Bytes) : Apart name s (write channel data) :=
  .bind (fun _ _ _ => rfl) apart_check

theorem apart_relay : Apart name s relay := .bind (fun _ _ _ => rfl) fun answer => apart_check answer.2

end Task

namespace Response

def give (r : Response) (s : Surroundings) (past : List Deed) : Outcome :=
  if r.text = [] then (past, ending r.fault)
  else
    let refusal : Option Fault := s past (.write .out r.text)
    (past ++ [⟨.write .out r.text, refusal⟩], ending (refusal.or r.fault))

theorem fault_of_give {r : Response} {s : Surroundings} {past : List Deed} (h : (r.give s past).fails = false) :
    r.fault = none := by
  unfold give at h
  split at h
  · cases hFault : r.fault with
    | none => rfl
    | some fault =>
      rw [hFault] at h
      cases h
  · cases hFault : r.fault with
    | none => rfl
    | some fault =>
      rw [hFault] at h
      dsimp only at h
      generalize (s past (.write .out r.text) : Option Fault) = refusal at h
      cases refusal <;> cases h

end Response

/-- What a call has read before it asks the mock; the input of the host is left alone. -/
def Proc.intake (p : Proc) (s : Surroundings) : List Deed × Except Fault (Option Bytes) :=
  if p.hostInput then ([], .ok none)
  else
    let input : Bytes × Option Fault := s [] (.read .all)
    ([⟨.read .all, input⟩], (ending input.2).map fun _ => some input.1)

namespace Mock

variable (name : String) (s : Surroundings)

/-- What is left when `r` was given and came to `outcome`. -/
def kept (m : MockCommand) (r : Response) (capture : Option Pattern) (outcome : Outcome) : MockCommand :=
  match capture with
  | none => m
  | some pattern => if outcome.fails then m else m.capture pattern r.text

/-- A call that has done `past` and read `got` goes on with what the mock has for it. -/
def follow (past : List Deed) (got : Option Bytes) : MockCommand × Answer Reaction → Outcome × MockCommand
  | (m, .nothing) => ((past, .ok ()), m)
  | (m, .handler reaction) => (Builtin.react reaction got).play name s past m
  | (m, .response r capture) => (r.give s past, m.kept r capture (r.give s past))

def call (m : MockCommand) (p : Proc) : Outcome × MockCommand :=
  (Builtin.mock name p).play name s [] m

end Mock

namespace Builtin

variable (name : String) (s : Surroundings)

def keep (r : Response) : Option Pattern → Task Unit
  | none => pure ()
  | some pattern => do let _ ← Task.perform (.consult name fun m => (m.capture pattern r.text, .nothing))

def ask (p : Proc) (got : Option Bytes) : Task Unit := do
  match ← Task.perform (.consult name (·.receive ⟨p.args, p.env, got.filter (· ≠ [])⟩)) with
  | .nothing => pure ()
  | .handler reaction => react reaction got
  | .response response capture => respond name response capture

theorem respond_eq (r : Response) (capture : Option Pattern) :
    respond name r capture =
      (if r.text = [] then pure () else Task.write .out r.text) >>= fun _ =>
        Task.check r.fault >>= fun _ => keep name r capture := by
  unfold respond
  by_cases hText : r.text = []
  · rw [if_neg (not_not.mpr hText), if_pos hText]
    cases capture <;> rfl
  · rw [if_pos hText, if_neg hText]
    cases capture <;> rfl

theorem mock_eq (p : Proc) :
    mock name p = if p.hostInput then ask name p none else Task.readAll >>= fun data => ask name p (some data) := by
  unfold mock
  split
  · refine (pure_bind _ _).trans (bind_congr fun answer => ?_)
    cases answer <;> rfl
  · refine (bind_map_left some Task.readAll _).trans (bind_congr fun data => bind_congr fun answer => ?_)
    cases answer <;> rfl

theorem play_keep (r : Response) (capture : Option Pattern) (past : List Deed) (m : MockCommand) :
    (keep name r capture).play name s past m = ((past, .ok ()), Mock.kept m r capture (past, .ok ())) := by
  cases capture with
  | none => rfl
  | some pattern =>
    refine (Task.play_bind name s _ _ past m).trans ?_
    rw [Task.play_consult]
    rfl

theorem play_respond (r : Response) (capture : Option Pattern) (past : List Deed) (m : MockCommand) :
    (respond name r capture).play name s past m = (r.give s past, Mock.kept m r capture (r.give s past)) := by
  have hEnd (past : List Deed) : (Task.check r.fault >>= fun _ => keep name r capture).play name s past m =
      ((past, ending r.fault), Mock.kept m r capture (past, ending r.fault)) := by
    rw [Task.play_bind, Task.play_check]
    cases r.fault with
    | none => exact play_keep name s r capture past m
    | some fault => cases capture <;> rfl
  rw [respond_eq, Task.play_bind, Response.give]
  by_cases hText : r.text = []
  · rw [if_pos hText, if_pos hText]
    exact hEnd past
  · rw [if_neg hText, if_neg hText, Task.play_write]
    generalize (s past (.write .out r.text) : Option Fault) = refusal
    cases refusal with
    | none => exact hEnd _
    | some fault => cases capture <;> rfl

theorem play_ask (p : Proc) (got : Option Bytes) (past : List Deed) (m : MockCommand) :
    (ask name p got).play name s past m =
      Mock.follow name s past got (m.receive ⟨p.args, p.env, got.filter (· ≠ [])⟩) := by
  rw [ask, Task.play_bind, Task.play_consult]
  rcases m.receive ⟨p.args, p.env, got.filter (· ≠ [])⟩ with ⟨m', answer⟩
  cases answer with
  | nothing => rfl
  | handler reaction => rfl
  | response r capture => exact play_respond name s r capture past m'

theorem apart_react (reaction : Reaction) (got : Option Bytes) : Task.Apart name s (react reaction got) := by
  have hTail : Task.Apart name s (Task.write .out reaction.text >>= fun _ => Task.check reaction.fault) :=
    .bind (Task.apart_write .out reaction.text) fun _ => Task.apart_check reaction.fault
  unfold react
  split
  · match got with
    | some [] => exact hTail
    | some (b :: data) => exact .bind (Task.apart_write .out (b :: data)) fun _ => hTail
    | none => exact .bind Task.apart_relay fun _ => hTail
  · exact hTail

end Builtin

namespace Mock

variable (name : String) (s : Surroundings)

theorem call_eq (m : MockCommand) (p : Proc) :
    call name s m p =
      match p.intake s with
      | (past, .error fault) => ((past, .error fault), m)
      | (past, .ok got) => follow name s past got (m.receive ⟨p.args, p.env, got.filter (· ≠ [])⟩) := by
  rw [call, Builtin.mock_eq, Proc.intake]
  cases p.hostInput with
  | true => exact Builtin.play_ask name s p none [] m
  | false =>
    refine (Task.play_bind name s Task.readAll _ [] m).trans ?_
    rw [Task.play_readAll]
    generalize (s [] (.read .all) : Bytes × Option Fault) = input
    obtain ⟨data, _ | fault⟩ := input
    · exact Builtin.play_ask name s p (some data) _ m
    · rfl

theorem follow_handler (past : List Deed) (got : Option Bytes) (m : MockCommand) (reaction : Reaction) :
    follow name s past got (m, .handler reaction) =
      (((Builtin.react reaction got).play name s past .empty).1, m) :=
  Builtin.apart_react name s reaction got past m .empty

section Serve

variable {α : Type} {m : Mock α} {pattern : Pattern}

theorem serve_of_captured {text : Bytes} (h : m.captured.lookup (key pattern) = some text) :
    m.serve pattern = (m, .response ⟨text, none⟩ none) := by
  rw [serve, h]

theorem serve_of_last {last : Response} (hCaptured : m.captured.lookup (key pattern) = none)
    (h : m.responses.lookup pattern = some [last]) :
    m.serve pattern = ({ m with responses := assign pattern [{ last with text := [] }] m.responses },
      .response last (some pattern)) := by
  rw [serve, hCaptured, h]

theorem serve_of_next {next behind : Response} {rest : List Response}
    (hCaptured : m.captured.lookup (key pattern) = none)
    (h : m.responses.lookup pattern = some (next :: behind :: rest)) :
    m.serve pattern = ({ m with responses := assign pattern (behind :: rest) m.responses }, .response next none) := by
  rw [serve, hCaptured, h]

end Serve

/-- A call with `args` whose input is that of the host. -/
def bare (args : List String) : Proc := ⟨args, [], "", true⟩

/-- What happens to a mock, one thing after the other. -/
inductive Event where
  | queue (response : Response) (pattern : Pattern)
  | handle (reaction : Reaction) (pattern : Pattern)
  | call (p : Proc) (s : Surroundings)

def after (name : String) (m : MockCommand) : Event → MockCommand
  | .queue response pattern => m.enqueue response pattern
  | .handle reaction pattern => m.register (.other reaction) pattern
  | .call p s => (call name s m p).2

/-- All that a call does to a mock once it has been received is to have a text kept. -/
theorem follow_cases (past : List Deed) (got : Option Bytes) (received : MockCommand × Answer Reaction) :
    (follow name s past got received).2 = received.1 ∨
      ∃ pattern text, (follow name s past got received).2 = received.1.capture pattern text := by
  obtain ⟨m, answer⟩ := received
  cases answer with
  | nothing => exact .inl rfl
  | handler reaction =>
    rw [follow_handler]
    exact .inl rfl
  | response r capture =>
    cases capture with
    | none => exact .inl rfl
    | some pattern =>
      rw [follow, kept]
      cases (r.give s past).fails with
      | true => exact .inl rfl
      | false => exact .inr ⟨pattern, r.text, rfl⟩

theorem Reachable.after {m : MockCommand} (h : m.Reachable) (e : Event) : (after name m e).Reachable := by
  cases e with
  | queue response pattern => exact h.enqueue response pattern
  | handle reaction pattern => exact h.register reaction pattern
  | call p s =>
    rw [Mock.after, call_eq]
    rcases p.intake s with ⟨past, fault | got⟩
    · exact h
    · have hReceived := h.receive ⟨p.args, p.env, got.filter (· ≠ [])⟩
      rcases follow_cases name s past got (m.receive ⟨p.args, p.env, got.filter (· ≠ [])⟩) with
        hSame | ⟨pattern, text, hCaptured⟩
      · exact hSame ▸ hReceived
      · exact hCaptured ▸ hReceived.capture pattern text

end Mock

end Pipework
