import Pipework.Proofs.Modes.Pipeline

/-!
# What a script attempts

A script tries one pipeline after the other. Each attempt has a fault or none, and gives output, which the host
receives, which is captured, or which a consumer takes. An alternative of a statement is tried if the one before
failed and that is not ignored, a statement if the one before succeeded. Where the output goes does not matter
to any of this.
-/

namespace Pipework

/-- A pipeline that was tried: its fault, if it failed, and all of its output. -/
structure Attempt where
  pipeline : Pipeline
  fault : Option Fault
  output : Bytes

namespace Attempt

/-- No further alternative is tried, and the statement succeeds. -/
def settles (a : Attempt) : Bool := a.fault.isNone || a.pipeline.ignore

def outputs (as : List Attempt) : Bytes := as.flatMap Attempt.output

/-- Whether a statement succeeded for which `as` were tried: one of these succeeded, or failed and is ignored. -/
def succeeded (as : List Attempt) : Bool := as.any settles

/-- The fault of the last attempt, unless that is ignored. -/
def lastFault (as : List Attempt) : Option Fault :=
  as.getLast?.bind fun a => if a.pipeline.ignore then none else a.fault

/-- The output of the attempt that succeeded, if one did. -/
def text (as : List Attempt) : Bytes :=
  match as.find? fun a => a.fault.isNone with
  | some a => a.output
  | none => []

/-- What a statement comes to for which `as` were tried: a fault, or the output that is kept. -/
def answer (output : Output) (as : List Attempt) : Except Fault Bytes :=
  match lastFault as with
  | some fault => .error fault
  | none => .ok (output.kept (text as))

theorem succeeded_single (a : Attempt) : succeeded [a] = (lastFault [a]).isNone := by
  cases hIgnore : a.pipeline.ignore <;> simp [succeeded, settles, lastFault, hIgnore]

theorem lastFault_cons (a : Attempt) {as : List Attempt} (h : as ≠ []) : lastFault (a :: as) = lastFault as := by
  rw [lastFault, List.getLast?_cons_of_ne_nil h]
  rfl

theorem lastFault_append {as : List Attempt} (h : lastFault as = none) (bs : List Attempt) :
    lastFault (as ++ bs) = lastFault bs := by
  cases hLast : bs.getLast? with
  | none =>
    rw [List.getLast?_eq_none_iff] at hLast
    simpa [hLast, lastFault] using h
  | some b => simp [lastFault, hLast]

theorem answer_cons (output : Output) {a : Attempt} (ha : a.fault ≠ none) {as : List Attempt} (h : as ≠ []) :
    answer output (a :: as) = answer output as := by
  have hText : text (a :: as) = text as := by
    unfold text
    rw [List.find?_cons_of_neg (by simpa using ha)]
  rw [answer, lastFault_cons a h, hText]
  rfl

end Attempt

/-- Of `n` things `xs` have been taken in turn: the first, and another after each of which `goesOn` holds. -/
structure InTurn {α : Type} (n : Nat) (goesOn : α → Prop) (xs : List α) : Prop where
  bound : xs.length ≤ n
  first : 0 < n → 0 < xs.length
  next : ∀ {k : Nat} {x : α}, xs[k]? = some x → (k + 1 < xs.length ↔ k + 1 < n ∧ goesOn x)

namespace InTurn

variable {α : Type} {n : Nat} {goesOn : α → Prop} {x : α} {xs : List α}

theorem nil : InTurn 0 goesOn [] := ⟨Nat.le_refl 0, id, fun h => by simp at h⟩

theorem single (h : goesOn x → n = 0) : InTurn (n + 1) goesOn [x] := by
  refine ⟨by simp, by simp, fun {k y} hk => ?_⟩
  obtain ⟨rfl, rfl⟩ : k = 0 ∧ y = x := by
    cases k with
    | zero => simpa [eq_comm] using hk
    | succ k => simp at hk
  constructor
  · simp
  · rintro ⟨hn, hGoes⟩
    have hZero := h hGoes
    omega

theorem cons (hx : goesOn x) (h : InTurn n goesOn xs) : InTurn (n + 1) goesOn (x :: xs) := by
  obtain ⟨hBound, hFirst, hNext⟩ := h
  refine ⟨by simpa using hBound, by simp, fun {k y} hk => ?_⟩
  cases k with
  | zero =>
    cases hk
    simp only [List.length_cons, hx, and_true]
    omega
  | succ k =>
    simp only [List.length_cons, Nat.add_lt_add_iff_right]
    exact hNext hk

end InTurn

/-- Of the alternatives `ps` of a statement, those of `as` were tried: each after one that failed and is not
ignored. -/
structure Attempt.Tried (ps : List Pipeline) (as : List Attempt) : Prop where
  pipelines : as.map Attempt.pipeline <+: ps
  inTurn : InTurn ps.length (fun a => a.fault ≠ none ∧ a.pipeline.ignore = false) as

namespace Attempt

theorem settles_eq_false {a : Attempt} : a.settles = false ↔ a.fault ≠ none ∧ a.pipeline.ignore = false := by
  cases hFault : a.fault <;> simp [settles, hFault]

namespace Tried

variable {a : Attempt} {as : List Attempt} {ps : List Pipeline}

theorem nil : Tried [] [] := ⟨List.nil_prefix, .nil⟩

theorem last (h : a.settles = true ∨ ps = []) : Tried (a.pipeline :: ps) [a] := by
  refine ⟨by simp, .single fun hGoes => ?_⟩
  rcases h with hSettles | rfl
  · rw [settles_eq_false.mpr hGoes] at hSettles
    cases hSettles
  · rfl

theorem cons (ha : a.settles = false) (h : Tried ps as) : Tried (a.pipeline :: ps) (a :: as) :=
  ⟨by simpa using h.pipelines, .cons (settles_eq_false.mp ha) h.inTurn⟩

end Tried

end Attempt

/-- Of the statements `ss`, those were tried for which `tries` has attempts: each after one that succeeded. -/
structure Statement.Tried (ss : List Statement) (tries : List (List Attempt)) : Prop where
  alternatives : ∀ {i : Nat} {as : List Attempt}, tries[i]? = some as →
    ∃ s, ss[i]? = some s ∧ Attempt.Tried s.alternatives as
  inTurn : InTurn ss.length (fun as => Attempt.succeeded as = true) tries

namespace Statement

namespace Tried

variable {s : Statement} {ss : List Statement} {as : List Attempt} {tries : List (List Attempt)}

theorem nil : Tried [] [] := ⟨fun h => by simp at h, .nil⟩

theorem last (ha : Attempt.Tried s.alternatives as) (h : Attempt.succeeded as = false) : Tried (s :: ss) [as] := by
  refine ⟨fun {i bs} hi => ?_, .single (by simp [h])⟩
  cases i with
  | zero =>
    cases hi
    exact ⟨s, rfl, ha⟩
  | succ i => simp at hi

theorem cons (ha : Attempt.Tried s.alternatives as) (hGoes : Attempt.succeeded as = true) (h : Tried ss tries) :
    Tried (s :: ss) (as :: tries) := by
  refine ⟨fun {i bs} hi => ?_, .cons hGoes h.inTurn⟩
  cases i with
  | zero =>
    cases hi
    exact ⟨s, rfl, ha⟩
  | succ i => exact h.alternatives hi

end Tried

/-- What was tried for the last of the statements `ss`. -/
def lastTries (ss : List Statement) (tries : List (List Attempt)) : List Attempt := tries.getD (ss.length - 1) []

/-- What the statements `ss` come to: the fault of the last attempt, or what is kept of the last statement. -/
def answer (output : Output) (ss : List Statement) (tries : List (List Attempt)) : Except Fault Bytes :=
  match Attempt.lastFault tries.flatten with
  | some fault => .error fault
  | none => .ok (output.kept (Attempt.text (lastTries ss tries)))

end Statement

theorem Mode.offered_output (m : Mode) (captured : Bytes) : (m.output false).offered captured = [] := by
  cases m <;> rfl

theorem Output.offered_nil (output : Output) : output.offered [] = [] := by
  cases output <;> rfl

theorem Output.kept_nil (output : Output) : output.kept [] = [] := by
  cases output <;> rfl

theorem Output.offered_append (output : Output) (x y : Bytes) :
    output.offered (x ++ y) = output.offered x ++ output.offered y := by
  cases output <;> rfl

/-- What a pipeline has given, of which part was offered, part kept and part received. -/
theorem Output.parts (output : Output) (o captured : Bytes) :
    output.offered captured ++ output.kept captured ++ (output.received o captured).drop o.length = captured := by
  cases output <;> simp [offered, kept, received]

namespace Invoker

variable (v : Invoker) (nested : Nested)

/-- Tries a pipeline, if that comes to an end by itself. -/
def tryPipeline (output : Output) (p : Pipeline) (phase : Phase) : Option (Attempt × Phase) :=
  (v.runPipeline nested output p phase).drain.map fun (data, (fault, text), after) =>
    (⟨p, fault, data ++ text ++ after.world.output.drop phase.world.output.length⟩, after)

def tryAlternatives (output : Output) : List Pipeline → Phase → Option (List Attempt × Phase)
  | [], phase => some ([], phase)
  | p :: rest, phase =>
    (v.tryPipeline nested output p phase).bind fun (a, phase) =>
      if a.settles || rest.isEmpty then some ([a], phase)
      else (tryAlternatives output rest phase).map fun (as, phase) => (a :: as, phase)

def tryStatements (m : Mode) : List Statement → Phase → Option (List (List Attempt) × Phase)
  | [], phase => some ([], phase)
  | s :: rest, phase =>
    (v.tryAlternatives nested (m.output rest.isEmpty) s.alternatives phase).bind fun (as, phase) =>
      if Attempt.succeeded as then
        (tryStatements m rest phase).map fun (tries, phase) => (as :: tries, phase)
      else some ([as], phase)

variable {v nested} {output : Output} {phase phase' : Phase}

@[simp] theorem Phase.output_look (o : Bytes) (phase : Phase) : (Phase.view.look o phase).world.output = o := rfl

theorem Phase.look_self {o : Bytes} {phase : Phase} (h : phase.world.output = o) : Phase.view.look o phase = phase := by
  subst h
  rfl

section Single

variable (v) in
def firstLine (p : Pipeline) (phase : Phase) : Line := v.openLine p { phase with world := v.traced p phase.world }

theorem firstLine_look (p : Pipeline) (phase : Phase) (output : Output) (o : Bytes) :
    v.firstLine p (Phase.view.look o phase) = (v.firstLine p phase).look output o := by
  unfold firstLine
  rw [show v.traced p (Phase.view.look o phase).world = _ from traced_withOutput p phase.world o]
  cases output <;> simp [openLine, Line.look, Phase.view, Output.received, Output.kept] <;> rfl

theorem runPipeline_drain (output : Output) (p : Pipeline) (phase : Phase) :
    (v.runPipeline nested output p phase).drain =
      (v.runStages nested output p (v.firstLine p phase)).drain.map
        fun (data, fault, line) => (data, (fault, line.captured), closeLine phase line) := by
  unfold runPipeline
  dsimp only
  rw [Run.drain_bind, Run.drain_within]
  · change Option.bind (Option.map _ (v.runStages nested output p (v.firstLine p phase)).drain) _ = _
    cases (v.runStages nested output p (v.firstLine p phase)).drain with
    | none => rfl
    | some x => simp [Run.drain, closeLine]
  · intro line
    simp [closeLine, Signal.isStop]

variable (hNested : nested.Blind)

include hNested

theorem firstLine_mirrors (output : Output) (p : Pipeline) (hFits : output = .consumer → phase.stopped = false)
    (o : Bytes) :
    (v.runStages nested .capture p (v.firstLine p phase)).Mirrors (Line.view output (output = .consumer))
      output.Hears o [] (v.runStages nested output p (v.firstLine p (Phase.view.look o phase))) := by
  have hSent : output.offered (v.firstLine p phase).captured = [] := by cases output <;> rfl
  rw [firstLine_look p phase output, ← hSent]
  exact runStages_mirrors hNested p hFits

/-- A pipeline whose output is captured offers nothing, and the host receives nothing. -/
theorem drain_capture {p : Pipeline} {data text : Bytes} {fault : Option Fault}
    (h : (v.runPipeline nested .capture p phase).drain = some (data, (fault, text), phase')) :
    data = [] ∧ phase'.world.output = phase.world.output ∧ (phase.stopped = false → phase'.stopped = false) := by
  -- In the light of what the host has received already, the run mirrors itself.
  obtain ⟨hData, hSame, -⟩ :=
    (runPipeline_mirrors hNested p phase phase.world.output).drain_right (fun _ _ => trivial) id h
  have hPhase : phase' = Phase.view.look phase.world.output phase' := by
    have hEq := h.symm.trans hSame
    simp only [Option.some.injEq, Prod.mk.injEq] at hEq
    exact hEq.2.2
  refine ⟨hData, by rw [hPhase]; rfl, fun hStopped => ?_⟩
  rw [runPipeline_drain] at h
  obtain ⟨⟨data', fault', line⟩, hLine, hEq⟩ := Option.map_eq_some_iff.mp h
  cases hEq
  -- What a consumer needs is kept along the run that captures, whether there is a consumer or not.
  have hMirrors := firstLine_mirrors (v := v) hNested .consumer p (fun _ => hStopped) []
  exact (hMirrors.drain_fits (fun _ hWhy _ => ⟨hWhy, rfl⟩) hLine).2 rfl

/-- A pipeline gives the same as one whose output is captured, and it goes where it is to go. -/
theorem drain_output {p : Pipeline} {data text : Bytes} {fault : Option Fault}
    (hFits : output = .consumer → phase.stopped = false)
    (h : (v.runPipeline nested output p phase).drain = some (data, (fault, text), phase')) :
    ∃ captured after, (v.runPipeline nested .capture p phase).drain = some ([], (fault, captured), after) ∧
      data = output.offered captured ∧ text = output.kept captured ∧
      phase' = Phase.view.look (output.received phase.world.output captured) after := by
  rw [runPipeline_drain] at h
  obtain ⟨⟨data', fault', line'⟩, hLine', hEq⟩ := Option.map_eq_some_iff.mp h
  cases hEq
  obtain ⟨line, hLine, hSent, hLook, -⟩ := (firstLine_mirrors hNested output p hFits phase.world.output).drain_left
    (fun _ hWhy _ => ⟨hWhy, rfl⟩) hLine'
  subst hLook
  refine ⟨line.captured, closeLine phase line, ?_, hSent.symm, rfl, rfl⟩
  rw [runPipeline_drain, hLine]
  rfl

theorem drain_host {p : Pipeline} {data text : Bytes} {fault : Option Fault}
    (h : (v.runPipeline nested .capture p phase).drain = some (data, (fault, text), phase')) (o : Bytes) :
    (v.runPipeline nested .host p (Phase.view.look o phase)).drain =
      some ([], (fault, []), Phase.view.look (o ++ text) phase') := by
  rw [runPipeline_drain] at h
  obtain ⟨⟨data', fault', line⟩, hLine, hEq⟩ := Option.map_eq_some_iff.mp h
  cases hEq
  obtain ⟨-, hHost, -⟩ := (firstLine_mirrors hNested .host p (by simp) o).drain_right
    (fun _ hWhy _ => ⟨hWhy, rfl⟩) (by simp [Line.view]) hLine
  rw [runPipeline_drain, hHost]
  rfl

theorem drain_eq_try (p : Pipeline) (hFits : output = .consumer → phase.stopped = false) :
    (v.runPipeline nested output p phase).drain = (v.tryPipeline nested output p phase).map fun (a, after) =>
      (output.offered a.output, (a.fault, output.kept a.output), after) := by
  unfold tryPipeline
  cases h : (v.runPipeline nested output p phase).drain with
  | none => rfl
  | some x =>
    obtain ⟨data, ⟨fault, text⟩, after⟩ := x
    obtain ⟨captured, after', -, rfl, rfl, rfl⟩ := drain_output hNested hFits h
    simp only [Option.map_some, Phase.output_look, Output.parts]

theorem drain_of_try {p : Pipeline} {a : Attempt} (hFits : output = .consumer → phase.stopped = false)
    (h : v.tryPipeline nested output p phase = some (a, phase')) :
    (v.runPipeline nested output p phase).drain =
      some (output.offered a.output, (a.fault, output.kept a.output), phase') := by
  rw [drain_eq_try hNested p hFits, h]
  rfl

theorem tryPipeline_eq_some {p : Pipeline} {a : Attempt} (hFits : output = .consumer → phase.stopped = false)
    (h : v.tryPipeline nested output p phase = some (a, phase')) :
    ∃ after, (v.runPipeline nested .capture p phase).drain = some ([], (a.fault, a.output), after) ∧ a.pipeline = p ∧
      phase' = Phase.view.look (output.received phase.world.output a.output) after := by
  obtain ⟨⟨data, ⟨fault, text⟩, after⟩, hDrain, hEq⟩ := Option.map_eq_some_iff.mp h
  cases hEq
  obtain ⟨captured, after', hCapture, rfl, rfl, rfl⟩ := drain_output hNested hFits hDrain
  have hParts := output.parts phase.world.output captured
  rw [Phase.output_look, hParts]
  exact ⟨after', hCapture, rfl, rfl⟩

theorem tryPipeline_capture {p : Pipeline} {a : Attempt} (hStopped : phase.stopped = false)
    (h : v.tryPipeline nested .consumer p phase = some (a, phase')) :
    v.tryPipeline nested .capture p phase = some (a, phase') := by
  obtain ⟨after, hDrain, rfl, rfl⟩ := tryPipeline_eq_some hNested (fun _ => hStopped) h
  obtain ⟨-, hOutput, -⟩ := drain_capture hNested hDrain
  rw [show Output.consumer.received phase.world.output a.output = phase.world.output from rfl, Phase.look_self hOutput]
  simp [tryPipeline, hDrain, hOutput]

/-- An attempt with the output captured is the same attempt with a consumer, unless it offers something without
end. -/
theorem tryPipeline_consumer {p : Pipeline} {a : Attempt} (hStopped : phase.stopped = false)
    (h : v.tryPipeline nested .capture p phase = some (a, phase'))
    (hFloods : (v.runPipeline nested .consumer p phase).floods = false) :
    v.tryPipeline nested .consumer p phase = some (a, phase') := by
  have hStages : (v.runStages nested .consumer p (v.firstLine p phase)).floods = false := by
    have hWithin := Run.floods_of_bind hFloods
    rw [Run.floods_within] at hWithin
    · exact hWithin
    · intro line
      simp [closeLine, Signal.isStop]
  obtain ⟨after, hDrain, -, -⟩ := tryPipeline_eq_some hNested (by simp) h
  rw [runPipeline_drain] at hDrain
  obtain ⟨⟨data, fault, line⟩, hLine, -⟩ := Option.map_eq_some_iff.mp hDrain
  have hMirrors := firstLine_mirrors (v := v) hNested .consumer p (fun _ => hStopped) phase.world.output
  obtain ⟨x, hConsumer⟩ := hMirrors.drain_of_not_floods (fun _ hWhy _ => ⟨hWhy, rfl⟩) hLine hStages
  have hTry : ∃ y, v.tryPipeline nested .consumer p phase = some y := by
    unfold tryPipeline
    rw [runPipeline_drain, show (v.runStages nested .consumer p (v.firstLine p phase)).drain = some x from hConsumer]
    exact ⟨_, rfl⟩
  obtain ⟨⟨a', after'⟩, hTry⟩ := hTry
  rw [hTry, ← h, tryPipeline_capture hNested hStopped hTry]

theorem tryPipeline_stopped {p : Pipeline} {a : Attempt} (hStopped : phase.stopped = false)
    (h : v.tryPipeline nested output p phase = some (a, phase')) : phase'.stopped = false := by
  obtain ⟨after, hDrain, -, rfl⟩ := tryPipeline_eq_some hNested (fun _ => hStopped) h
  exact (drain_capture hNested hDrain).2.2 hStopped

/-- An attempt with the output captured is the same attempt with the output to the host. -/
theorem tryPipeline_host {p : Pipeline} {a : Attempt}
    (h : v.tryPipeline nested .capture p phase = some (a, phase')) (o : Bytes) :
    v.tryPipeline nested .host p (Phase.view.look o phase) = some (a, Phase.view.look (o ++ a.output) phase') := by
  obtain ⟨after, hDrain, rfl, rfl⟩ := tryPipeline_eq_some hNested (by simp) h
  unfold tryPipeline
  rw [drain_host hNested hDrain o]
  simp only [Option.map_some, Phase.output_look, List.nil_append, List.drop_left]
  rfl

end Single

theorem tryAlternatives_cons {p : Pipeline} {rest : List Pipeline} {as : List Attempt} :
    v.tryAlternatives nested output (p :: rest) phase = some (as, phase') ↔
      ∃ a after, v.tryPipeline nested output p phase = some (a, after) ∧
        ((a.settles || rest.isEmpty) = true ∧ as = [a] ∧ phase' = after ∨
          (a.settles || rest.isEmpty) = false ∧
            ∃ more, v.tryAlternatives nested output rest after = some (more, phase') ∧ as = a :: more) := by
  constructor
  · intro h
    obtain ⟨⟨a, after⟩, hTry, hRest⟩ := Option.bind_eq_some_iff.mp h
    refine ⟨a, after, hTry, ?_⟩
    dsimp only at hRest
    cases hSettles : a.settles || rest.isEmpty with
    | true =>
      rw [if_pos hSettles] at hRest
      cases hRest
      exact .inl ⟨rfl, rfl, rfl⟩
    | false =>
      rw [if_neg (by simp [hSettles])] at hRest
      obtain ⟨⟨more, after'⟩, hTry', hEq⟩ := Option.map_eq_some_iff.mp hRest
      cases hEq
      exact .inr ⟨rfl, more, hTry', rfl⟩
  · rintro ⟨a, after, hTry, ⟨hSettles, rfl, rfl⟩ | ⟨hSettles, more, hTry', rfl⟩⟩
    · simp only [tryAlternatives, hTry, Option.bind_some, if_pos hSettles]
    · simp only [tryAlternatives, hTry, Option.bind_some, hSettles, Bool.false_eq_true, if_false, hTry',
        Option.map_some]

theorem tryStatements_cons {m : Mode} {s : Statement} {rest : List Statement} {tries : List (List Attempt)} :
    v.tryStatements nested m (s :: rest) phase = some (tries, phase') ↔
      ∃ as after, v.tryAlternatives nested (m.output rest.isEmpty) s.alternatives phase = some (as, after) ∧
        (Attempt.succeeded as = false ∧ tries = [as] ∧ phase' = after ∨
          Attempt.succeeded as = true ∧
            ∃ more, v.tryStatements nested m rest after = some (more, phase') ∧ tries = as :: more) := by
  constructor
  · intro h
    obtain ⟨⟨as, after⟩, hTry, hRest⟩ := Option.bind_eq_some_iff.mp h
    refine ⟨as, after, hTry, ?_⟩
    dsimp only at hRest
    cases hSucceeded : Attempt.succeeded as with
    | true =>
      rw [if_pos hSucceeded] at hRest
      obtain ⟨⟨more, after'⟩, hTry', hEq⟩ := Option.map_eq_some_iff.mp hRest
      cases hEq
      exact .inr ⟨rfl, more, hTry', rfl⟩
    | false =>
      rw [if_neg (by simp [hSucceeded])] at hRest
      cases hRest
      exact .inl ⟨rfl, rfl, rfl⟩
  · rintro ⟨as, after, hTry, ⟨hSucceeded, rfl, rfl⟩ | ⟨hSucceeded, more, hTry', rfl⟩⟩
    · simp only [tryStatements, hTry, Option.bind_some, hSucceeded, Bool.false_eq_true, if_false]
    · simp only [tryStatements, hTry, Option.bind_some, if_pos hSucceeded, hTry', Option.map_some]

section Agreement

variable (v nested) in
/-- Attempts with the output to `output` are also made with the output to `output'`, from phases that `R` relates
when `o` has been given. -/
structure Agrees (R : (o : Bytes) → Phase → Phase → Prop) (output output' : Output) : Prop where
  attempt : ∀ {o : Bytes} {p : Pipeline} {a : Attempt} {before before' after : Phase}, R o before before' →
    v.tryPipeline nested output p before = some (a, after) →
      ∃ after', v.tryPipeline nested output' p before' = some (a, after') ∧ R (o ++ a.output) after after'

variable {R : (o : Bytes) → Phase → Phase → Prop} {o : Bytes} {before before' after : Phase}

theorem Agrees.alternatives {output' : Output} (hR : v.Agrees nested R output output') {ps : List Pipeline}
    {as : List Attempt} (h : R o before before')
    (hTry : v.tryAlternatives nested output ps before = some (as, after)) :
    ∃ after', v.tryAlternatives nested output' ps before' = some (as, after') ∧
      R (o ++ Attempt.outputs as) after after' := by
  induction ps generalizing o before before' as with
  | nil =>
    cases hTry
    exact ⟨before', rfl, by simpa [Attempt.outputs] using h⟩
  | cons p rest ih =>
    obtain ⟨a, middle, hFirst, hRest⟩ := tryAlternatives_cons.mp hTry
    obtain ⟨middle', hFirst', hMiddle⟩ := hR.attempt h hFirst
    rcases hRest with ⟨hLast, rfl, rfl⟩ | ⟨hMore, more, hRest, rfl⟩
    · refine ⟨middle', ?_, by simpa [Attempt.outputs] using hMiddle⟩
      exact tryAlternatives_cons.mpr ⟨a, middle', hFirst', .inl ⟨hLast, rfl, rfl⟩⟩
    · obtain ⟨after', hRest', hAfter⟩ := ih hMiddle hRest
      refine ⟨after', ?_, by simpa [Attempt.outputs] using hAfter⟩
      exact tryAlternatives_cons.mpr ⟨a, middle', hFirst', .inr ⟨hMore, more, hRest', rfl⟩⟩

theorem Agrees.statements {m m' : Mode} (hR : ∀ isLast, v.Agrees nested R (m.output isLast) (m'.output isLast))
    {ss : List Statement} {tries : List (List Attempt)} (h : R o before before')
    (hTry : v.tryStatements nested m ss before = some (tries, after)) :
    ∃ after', v.tryStatements nested m' ss before' = some (tries, after') ∧
      R (o ++ Attempt.outputs tries.flatten) after after' := by
  induction ss generalizing o before before' tries with
  | nil =>
    cases hTry
    exact ⟨before', rfl, by simpa [Attempt.outputs] using h⟩
  | cons s rest ih =>
    obtain ⟨as, middle, hFirst, hRest⟩ := tryStatements_cons.mp hTry
    obtain ⟨middle', hFirst', hMiddle⟩ := (hR rest.isEmpty).alternatives h hFirst
    rcases hRest with ⟨hLast, rfl, rfl⟩ | ⟨hMore, more, hRest, rfl⟩
    · refine ⟨middle', ?_, by simpa [Attempt.outputs] using hMiddle⟩
      exact tryStatements_cons.mpr ⟨as, middle', hFirst', .inl ⟨hLast, rfl, rfl⟩⟩
    · obtain ⟨after', hRest', hAfter⟩ := ih hMiddle hRest
      refine ⟨after', ?_, by simpa [Attempt.outputs] using hAfter⟩
      exact tryStatements_cons.mpr ⟨as, middle', hFirst', .inr ⟨hMore, more, hRest', rfl⟩⟩

theorem tryStatements_capture (hNested : nested.Blind) {ss : List Statement} {tries : List (List Attempt)}
    (hStopped : phase.stopped = false) (h : v.tryStatements nested .stream ss phase = some (tries, phase')) :
    v.tryStatements nested .capture ss phase = some (tries, phase') := by
  have hAgrees (isLast : Bool) : v.Agrees nested (fun _ before before' => before' = before ∧ before.stopped = false)
      (Mode.stream.output isLast) (Mode.capture.output isLast) := by
    constructor
    rintro o p a before before' after ⟨rfl, hBefore⟩ hTry
    refine ⟨after, ?_, rfl, tryPipeline_stopped hNested hBefore hTry⟩
    cases isLast with
    | true => exact tryPipeline_capture hNested hBefore hTry
    | false => exact hTry
  obtain ⟨_, hTry, rfl, -⟩ := Agrees.statements (o := []) hAgrees ⟨rfl, hStopped⟩ h
  exact hTry

/-- With the output to the host, a script attempts what it attempts with its output captured. -/
theorem tryStatements_run (hNested : nested.Blind) {ss : List Statement} {tries : List (List Attempt)}
    (h : v.tryStatements nested .capture ss phase = some (tries, phase')) (o : Bytes) :
    v.tryStatements nested .run ss (Phase.view.look o phase) =
      some (tries, Phase.view.look (o ++ Attempt.outputs tries.flatten) phase') := by
  have hAgrees (isLast : Bool) : v.Agrees nested (fun o before before' => before' = Phase.view.look o before)
      (Mode.capture.output isLast) (Mode.run.output isLast) := by
    constructor
    rintro o p a before before' after rfl hTry
    exact ⟨_, tryPipeline_host hNested hTry o, rfl⟩
  obtain ⟨_, hTry, rfl⟩ := Agrees.statements hAgrees rfl h
  exact hTry

end Agreement

theorem pipeline_tryPipeline {p : Pipeline} {a : Attempt}
    (h : v.tryPipeline nested output p phase = some (a, phase')) : a.pipeline = p := by
  obtain ⟨x, -, hEq⟩ := Option.map_eq_some_iff.mp h
  cases hEq
  rfl

theorem tryAlternatives_tried {ps : List Pipeline} {as : List Attempt}
    (h : v.tryAlternatives nested output ps phase = some (as, phase')) : Attempt.Tried ps as := by
  induction ps generalizing phase as with
  | nil =>
    cases h
    exact .nil
  | cons p rest ih =>
    obtain ⟨a, after, hFirst, hRest⟩ := tryAlternatives_cons.mp h
    obtain rfl := pipeline_tryPipeline hFirst
    rcases hRest with ⟨hLast, rfl, -⟩ | ⟨hMore, more, hRest, rfl⟩
    · exact .last (by simpa using hLast)
    · exact .cons (Bool.or_eq_false_iff.mp hMore).1 (ih hRest)

theorem tryStatements_tried {m : Mode} {ss : List Statement} {tries : List (List Attempt)}
    (h : v.tryStatements nested m ss phase = some (tries, phase')) : Statement.Tried ss tries := by
  induction ss generalizing phase tries with
  | nil =>
    cases h
    exact .nil
  | cons s rest ih =>
    obtain ⟨as, after, hFirst, hRest⟩ := tryStatements_cons.mp h
    have hTried := tryAlternatives_tried hFirst
    rcases hRest with ⟨hLast, rfl, -⟩ | ⟨hMore, more, hRest, rfl⟩
    · exact .last hTried hLast
    · exact .cons hTried hMore (ih hRest)

theorem tryAlternatives_ne_nil {ps : List Pipeline} {as : List Attempt} (hPs : ps ≠ [])
    (h : v.tryAlternatives nested output ps phase = some (as, phase')) : as ≠ [] := by
  have hPositive := (tryAlternatives_tried h).inTurn.first (List.length_pos_iff.mpr hPs)
  exact List.length_pos_iff.mp hPositive

theorem tryAlternatives_succeeded {ps : List Pipeline} {as : List Attempt} (hPs : ps ≠ [])
    (h : v.tryAlternatives nested output ps phase = some (as, phase')) :
    Attempt.succeeded as = (Attempt.lastFault as).isNone := by
  induction ps generalizing phase as with
  | nil => exact absurd rfl hPs
  | cons p rest ih =>
    obtain ⟨a, after, hFirst, ⟨-, rfl, -⟩ | ⟨hMore, more, hRest, rfl⟩⟩ := tryAlternatives_cons.mp h
    · exact Attempt.succeeded_single a
    · obtain ⟨hSettles, hEmpty⟩ := Bool.or_eq_false_iff.mp hMore
      have hRestNe : rest ≠ [] := by simpa using hEmpty
      rw [Attempt.lastFault_cons a (tryAlternatives_ne_nil hRestNe hRest), ← ih hRestNe hRest]
      simp [Attempt.succeeded, hSettles]

section Runs

variable (hNested : nested.Blind)

include hNested

theorem tryAlternatives_stopped {ps : List Pipeline} {as : List Attempt} (hStopped : phase.stopped = false)
    (h : v.tryAlternatives nested output ps phase = some (as, phase')) : phase'.stopped = false := by
  have hAgrees : v.Agrees nested (fun _ before before' => before' = before ∧ before.stopped = false) output output := by
    constructor
    rintro o p a before before' after ⟨rfl, hBefore⟩ hTry
    exact ⟨after, hTry, rfl, tryPipeline_stopped hNested hBefore hTry⟩
  obtain ⟨_, -, -, hAfter⟩ := hAgrees.alternatives (o := []) ⟨rfl, hStopped⟩ h
  exact hAfter

theorem runAlternatives_drain (ps : List Pipeline) (hFits : output = .consumer → phase.stopped = false) :
    (v.runAlternatives nested output ps phase).drain =
      (v.tryAlternatives nested output ps phase).map fun (as, after) =>
        (output.offered (Attempt.outputs as), Attempt.answer output as, after) := by
  induction ps generalizing phase with
  | nil => cases output <;> rfl
  | cons p rest ih =>
    unfold runAlternatives tryAlternatives
    rw [Run.drain_bind, drain_eq_try hNested p hFits]
    cases hTry : v.tryPipeline nested output p phase with
    | none => rfl
    | some x =>
      obtain ⟨a, after⟩ := x
      have hPipeline := pipeline_tryPipeline hTry
      have hFits' : output = .consumer → after.stopped = false := fun hConsumer =>
        tryPipeline_stopped hNested (hFits hConsumer) hTry
      obtain ⟨pipeline, fault, data⟩ := a
      cases hPipeline
      simp only [Option.map_some, Option.bind_some]
      cases fault with
      | none => simp [Run.drain, Attempt.settles, Attempt.answer, Attempt.lastFault, Attempt.text, Attempt.outputs]
      | some fault =>
        cases hIgnore : pipeline.ignore with
        | true =>
          simp [Run.drain, Attempt.settles, Attempt.answer, Attempt.lastFault, Attempt.text, Attempt.outputs,
            Output.kept_nil, hIgnore]
        | false =>
          cases hEmpty : rest.isEmpty with
          | true => simp [Run.drain, Attempt.settles, Attempt.answer, Attempt.lastFault, Attempt.outputs, hIgnore]
          | false =>
            have hRest : rest ≠ [] := by simpa using hEmpty
            simp only [Attempt.settles, Option.isNone_some, hIgnore, Bool.or_false, Bool.false_eq_true, if_false]
            rw [ih hFits']
            cases hMore : v.tryAlternatives nested output rest after with
            | none => rfl
            | some x =>
              obtain ⟨as, after'⟩ := x
              have hSome := tryAlternatives_ne_nil hRest hMore
              simp [Attempt.outputs, Output.offered_append, Attempt.answer_cons output _ hSome]

theorem drain_of_tryAlternatives {ps : List Pipeline} {as : List Attempt}
    (hFits : output = .consumer → phase.stopped = false)
    (h : v.tryAlternatives nested output ps phase = some (as, phase')) :
    (v.runAlternatives nested output ps phase).drain =
      some (output.offered (Attempt.outputs as), Attempt.answer output as, phase') := by
  rw [runAlternatives_drain hNested ps hFits, h]
  rfl

theorem runStatements_drain (m : Mode) (text : Bytes) (ss : List Statement) (hStopped : phase.stopped = false) :
    (v.runStatements nested m text ss phase).drain = (v.tryStatements nested m ss phase).map fun (tries, after) =>
      ((m.output true).offered (Attempt.outputs (Statement.lastTries ss tries)),
        if ss.isEmpty then .ok text else Statement.answer (m.output true) ss tries, after) := by
  induction ss generalizing text phase with
  | nil => simp [runStatements, tryStatements, Run.drain, Statement.lastTries, Attempt.outputs,
      Output.offered_nil]
  | cons s rest ih =>
    unfold runStatements tryStatements
    rw [Run.drain_bind, runAlternatives_drain hNested s.alternatives fun _ => hStopped]
    cases hTry : v.tryAlternatives nested (m.output rest.isEmpty) s.alternatives phase with
    | none => rfl
    | some x =>
      obtain ⟨as, after⟩ := x
      have hSucceeded := tryAlternatives_succeeded (List.cons_ne_nil _ _) hTry
      simp only [Option.map_some, Option.bind_some, Attempt.answer]
      cases hFault : Attempt.lastFault as with
      | some fault =>
        -- The statement fails: if it is not the last one, nothing has been offered.
        rw [hFault] at hSucceeded
        rw [if_neg (by simp [hSucceeded])]
        cases rest with
        | nil => simp [Run.drain, Statement.answer, Statement.lastTries, hFault]
        | cons s' rest =>
          simp [Run.drain, Statement.answer, Statement.lastTries, Attempt.outputs, Output.offered_nil, hFault,
            Mode.offered_output]
      | none =>
        rw [hFault] at hSucceeded
        rw [if_pos (by simp [hSucceeded])]
        dsimp only
        rw [ih _ (tryAlternatives_stopped hNested hStopped hTry)]
        cases rest with
        | nil =>
          simp [tryStatements, Statement.answer, Statement.lastTries, Attempt.outputs, Output.offered_nil, hFault]
        | cons s' rest =>
          cases hRest : v.tryStatements nested m (s' :: rest) after with
          | none => rfl
          | some x =>
            simp [Mode.offered_output, Statement.answer, Statement.lastTries, Attempt.lastFault_append hFault]

theorem tryAlternatives_consumer {ps : List Pipeline} {as : List Attempt} (hStopped : phase.stopped = false)
    (h : v.tryAlternatives nested .capture ps phase = some (as, phase'))
    (hFloods : (v.runAlternatives nested .consumer ps phase).floods = false) :
    v.tryAlternatives nested .consumer ps phase = some (as, phase') := by
  induction ps generalizing phase as with
  | nil => exact h
  | cons p rest ih =>
    obtain ⟨a, after, hFirst, hRest⟩ := tryAlternatives_cons.mp h
    have hFirst' := tryPipeline_consumer hNested hStopped hFirst (Run.floods_of_bind hFloods)
    refine tryAlternatives_cons.mpr ⟨a, after, hFirst', ?_⟩
    rcases hRest with hLast | ⟨hMore, more, hRest, rfl⟩
    · exact .inl hLast
    · refine .inr ⟨hMore, more, ih (tryPipeline_stopped hNested hStopped hFirst) hRest ?_, rfl⟩
      have hDrain := drain_of_try hNested (fun _ => hStopped) hFirst'
      obtain ⟨pipeline, fault, data⟩ := a
      obtain rfl : pipeline = p := pipeline_tryPipeline hFirst
      obtain ⟨hSettles, hEmpty⟩ := Bool.or_eq_false_iff.mp hMore
      obtain ⟨hFault, hIgnore⟩ := Bool.or_eq_false_iff.mp hSettles
      cases fault with
      | none => cases hFault
      | some fault =>
        rw [runAlternatives, Run.floods_bind hDrain] at hFloods
        simpa [show pipeline.ignore = false from hIgnore, hEmpty] using hFloods

theorem tryStatements_stream {ss : List Statement} {tries : List (List Attempt)} (text : Bytes)
    (hStopped : phase.stopped = false) (h : v.tryStatements nested .capture ss phase = some (tries, phase'))
    (hFloods : (v.runStatements nested .stream text ss phase).floods = false) :
    v.tryStatements nested .stream ss phase = some (tries, phase') := by
  induction ss generalizing phase tries text with
  | nil => exact h
  | cons s rest ih =>
    obtain ⟨as, after, hFirst, hRest⟩ := tryStatements_cons.mp h
    have hFirst' : v.tryAlternatives nested (Mode.stream.output rest.isEmpty) s.alternatives phase =
        some (as, after) := by
      cases hEmpty : rest.isEmpty with
      | true =>
        have hFloods' := Run.floods_of_bind hFloods
        rw [hEmpty] at hFloods'
        exact tryAlternatives_consumer hNested hStopped hFirst hFloods'
      | false => exact hFirst
    refine tryStatements_cons.mpr ⟨as, after, hFirst', ?_⟩
    rcases hRest with hLast | ⟨hMore, more, hRest, rfl⟩
    · exact .inl hLast
    · have hStopped' := tryAlternatives_stopped hNested hStopped hFirst
      have hFault : Attempt.lastFault as = none := by
        rw [← Option.isNone_iff_eq_none, ← tryAlternatives_succeeded (List.cons_ne_nil _ _) hFirst, hMore]
      have hDrain := drain_of_tryAlternatives hNested (fun _ => hStopped) hFirst'
      rw [runStatements, Run.floods_bind hDrain, Attempt.answer, hFault] at hFloods
      exact .inr ⟨hMore, more, ih _ hStopped' hRest hFloods, rfl⟩

end Runs

end Invoker

namespace Script

/-- What a script attempts, and the phase in which that ends. -/
def attempt (programs : Host.Programs) (context : Context) (m : Mode) (script : Script) (w : World) :
    Option (List (List Attempt) × Invoker.Phase) :=
  let (overlay, w) := context.enter w
  let v : Invoker := ⟨programs, context, overlay⟩
  let gone := m == .abandoned
  v.tryStatements (nestedRun programs maxDepth) m script.statements ⟨w, .opened, context.canceled || gone, gone⟩

/-- The world that an invocation leaves behind which began in `w` and ends in `phase`. -/
def left (context : Context) (w : World) (phase : Invoker.Phase) : World :=
  phase.world.setOverlay (context.enter w).1 (phase.scope.restore (phase.world.overlay (context.enter w).1)).2

variable (programs : Host.Programs) (context : Context) (script : Script) (w : World)

theorem execute_drain {m : Mode} (hMode : m ≠ .abandoned) :
    (script.execute programs context m w).drain = (script.attempt programs context m w).map fun (tries, phase) =>
      ((m.output true).offered (Attempt.outputs (Statement.lastTries script.statements tries)),
        (Statement.answer (m.output true) script.statements tries).map capturedText, left context w phase) := by
  have hGone : (m == .abandoned) = false := by simpa using hMode
  unfold execute executeWith attempt
  dsimp only
  rw [Run.drain_bind, Run.drain_within, Run.drain_bind, Invoker.runStatements_drain (nestedRun_blind programs maxDepth)]
  · rw [hGone]
    cases hTries : (Invoker.mk programs context (context.enter w).1).tryStatements (nestedRun programs maxDepth) m
        script.statements ⟨(context.enter w).2, .opened, context.canceled || false, false⟩ with
    | none => rfl
    | some x =>
      obtain ⟨tries, phase⟩ := x
      have hAnswer : (if script.statements.isEmpty then .ok [] else
          Statement.answer (m.output true) script.statements tries) =
          Statement.answer (m.output true) script.statements tries := by
        by_cases hNone : script.statements = []
        · rw [hNone] at hTries ⊢
          cases hTries
          simp [Statement.answer, Statement.lastTries, Attempt.lastFault, Attempt.text, Output.kept_nil]
        · simp [hNone]
      simp only [Option.map_some, Option.bind_some, Run.drain, hAnswer, List.append_nil, left]
  · exact hGone
  · intro phase
    simp [Signal.isStop]

variable {programs context script w} {tries : List (List Attempt)} {phase : Invoker.Phase}

theorem attempt_capture (h : script.attempt programs context .stream w = some (tries, phase)) :
    script.attempt programs context .capture w = some (tries, phase) :=
  Invoker.tryStatements_capture (nestedRun_blind programs maxDepth) rfl h

theorem attempt_stream (h : script.attempt programs context .capture w = some (tries, phase))
    (hFloods : (script.execute programs context .stream w).floods = false) :
    script.attempt programs context .stream w = some (tries, phase) := by
  refine Invoker.tryStatements_stream (nestedRun_blind programs maxDepth) [] rfl h ?_
  unfold execute executeWith at hFloods
  have hWithin := Run.floods_of_bind hFloods
  rw [Run.floods_within] at hWithin
  · exact Run.floods_of_bind hWithin
  · intro phase
    simp [Signal.isStop]

theorem attempt_run (h : script.attempt programs context .capture w = some (tries, phase)) :
    script.attempt programs context .run w =
      some (tries, Invoker.Phase.view.look (w.output ++ Attempt.outputs tries.flatten) phase) := by
  have hOutput : (context.enter w).2.output = w.output := by
    unfold Context.enter
    split <;> rfl
  have hRun := Invoker.tryStatements_run (nestedRun_blind programs maxDepth) h w.output
  rw [Invoker.Phase.look_self hOutput] at hRun
  exact hRun

theorem attempt_tried {m : Mode} (h : script.attempt programs context m w = some (tries, phase)) :
    Statement.Tried script.statements tries :=
  Invoker.tryStatements_tried h

end Script

end Pipework
