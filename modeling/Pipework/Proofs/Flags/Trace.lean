import Pipework.Proofs.Flags.Heedless

/-!
# What tracing shows

A script tries one pipeline after the other, each in the phase that the one before has left. If it is traced, each of
these leaves a record, with the directory that is in force as it starts. Nothing else writes to the trace, and
nothing but the trace shows that the script is traced.
-/

namespace Pipework

/-- A pipeline that was tried, with all that happened meanwhile. -/
structure Try where
  pipeline : Pipeline
  output : Output
  before : Invoker.Phase
  story : List (Wait × Signal)
  fault : Option Fault
  text : Bytes
  after : Invoker.Phase

namespace Try

def attempt (t : Try) : Attempt := ⟨t.pipeline, t.fault, t.text⟩

variable (v : Invoker) (nested : Nested)

/-- A run of the pipeline comes to what is said of it. -/
def Made (t : Try) : Prop :=
  (v.runPipeline nested t.output t.pipeline t.before).Yields Invoker.Phase.signaled t.story (t.fault, t.text) t.after

def record (t : Try) : Bytes :=
  markLines (utf8 "+ ") (utf8 (Invoker.traceRecord t.pipeline (v.directory t.before.world)))

/-- Pipelines were tried, each in the phase in which the one before had ended. -/
inductive Row : Invoker.Phase → List Try → Invoker.Phase → Prop
  | nil {phase : Invoker.Phase} : Row phase [] phase
  | cons {t : Try} {ts : List Try} {last : Invoker.Phase} (hMade : t.Made v nested) (hRest : Row t.after ts last) :
      Row t.before (t :: ts) last

/-- Pipelines were tried from one phase to another, in which each has left its record. -/
structure Recorded (phase : Invoker.Phase) (ts : List Try) (story : List (Wait × Signal)) (last : Invoker.Phase) :
    Prop where
  row : Row v nested phase ts last
  story : story = ts.flatMap Try.story
  trace : last.world.trace = phase.world.trace ++ ts.flatMap (record v)

namespace Recorded

variable {v nested} {ts us : List Try} {phase middle last : Invoker.Phase} {story story' : List (Wait × Signal)}

theorem nil : Recorded v nested phase [] [] phase := ⟨.nil, rfl, (List.append_nil _).symm⟩

theorem cons {t : Try} (hMade : t.Made v nested) (hTrace : t.after.world.trace = t.before.world.trace ++ t.record v)
    (h : Recorded v nested t.after ts story last) : Recorded v nested t.before (t :: ts) (t.story ++ story) last where
  row := .cons hMade h.row
  story := by rw [h.story, List.flatMap_cons]
  trace := by rw [h.trace, hTrace, List.flatMap_cons, List.append_assoc]

theorem append (h : Recorded v nested phase ts story middle) (h' : Recorded v nested middle us story' last) :
    Recorded v nested phase (ts ++ us) (story ++ story') last where
  row := by
    have hRow := h.row
    clear h
    induction hRow with
    | nil => exact h'.row
    | cons hMade _ ih => exact .cons hMade (ih h')
  story := by rw [h.story, h'.story, List.flatMap_append]
  trace := by rw [h'.trace, h.trace, List.flatMap_append, List.append_assoc]

end Recorded

end Try

theorem debugVar_ne_pipefailVar : debugVar ≠ pipefailVar := by decide

namespace Invoker

variable {H : Hiding} {v : Invoker} {nested : Nested} {output : Output} {phase last : Phase}
  {story : List (Wait × Signal)}

variable (hKey : H.key = debugVar) (hOverlay : v.overlay = H.overlay)

include hKey hOverlay

theorem traced_record (hSound : H.Sound phase.world phase.scope) (p : Pipeline) :
    (v.traced p phase.world).trace =
      phase.world.trace ++ markLines (utf8 "+ ") (utf8 (traceRecord p (v.directory phase.world))) := by
  have hFlag : v.flag phase.world debugVar = true := by
    rw [flag, hOverlay, ← hKey]
    exact beq_iff_eq.mpr hSound.set
  rw [traced, if_pos hFlag]

theorem runAlternatives_recorded {ps : List Pipeline} (hPs : ps ≠ [])
    (hHeedless : v.HeedlessAlternatives nested H.key output ps phase) (hSound : H.Sound phase.world phase.scope)
    {result : Except Fault Bytes}
    (h : (v.runAlternatives nested output ps phase).Yields Phase.signaled story result last) :
    ∃ ts, Try.Recorded v nested phase ts story last ∧ Attempt.Tried ps (ts.map Try.attempt) ∧
      (Attempt.succeeded (ts.map Try.attempt) = true ↔ ∃ text, result = .ok text) := by
  have hSure : H.key ≠ pipefailVar := hKey ▸ debugVar_ne_pipefailVar
  induction ps generalizing phase story with
  | nil => exact absurd rfl hPs
  | cons p rest ih =>
    obtain ⟨hIgnores, hRest⟩ := hHeedless
    obtain ⟨first, story, ⟨fault, text⟩, after, rfl, hFirst, hLast⟩ := Run.yields_bind.mp h
    have hTrace := (later_runPipeline hIgnores hFirst).1.trans (traced_record hKey hOverlay hSound p)
    have hCons {ts : List Try} (h : Try.Recorded v nested after ts story last) :
        Try.Recorded v nested phase (⟨p, output, phase, first, fault, text, after⟩ :: ts) (first ++ story) last :=
      .cons (t := ⟨p, output, phase, first, fault, text, after⟩) hFirst hTrace h
    cases fault with
    | none =>
      obtain ⟨rfl, rfl, rfl⟩ := Run.yields_done.mp hLast
      exact ⟨_, hCons .nil, .last (a := ⟨p, none, text⟩) (.inl rfl), fun _ => ⟨text, rfl⟩, fun _ => rfl⟩
    | some fault =>
      have hSettles : (Attempt.mk p (some fault) text).settles = p.ignore := rfl
      dsimp only at hLast
      cases hIgnore : p.ignore with
      | true =>
        rw [hIgnore] at hLast hSettles
        obtain ⟨rfl, rfl, rfl⟩ := Run.yields_done.mp hLast
        refine ⟨_, hCons .nil, .last (a := ⟨p, some fault, text⟩) (.inl hSettles), fun _ => ⟨[], rfl⟩, fun _ => ?_⟩
        simp [Attempt.succeeded, Try.attempt, hSettles]
      | false =>
        rw [hIgnore, if_neg Bool.false_ne_true] at hLast
        rw [hIgnore] at hSettles
        cases hEmpty : rest.isEmpty with
        | true =>
          obtain rfl : rest = [] := by simpa using hEmpty
          obtain ⟨rfl, rfl, rfl⟩ := Run.yields_done.mp hLast
          refine ⟨_, hCons .nil, .last (a := ⟨p, some fault, text⟩) (.inr rfl), ?_⟩
          simp [Attempt.succeeded, Try.attempt, hSettles]
        | false =>
          rw [hEmpty, if_neg Bool.false_ne_true] at hLast
          -- The next one is tried in a phase in which tracing is still on.
          have hNe : rest ≠ [] := by simpa using hEmpty
          have hSound' := (runPipeline_tracks hIgnores hSound).fits (fun _ _ hLost => hSure hLost.1) hFirst
          obtain ⟨ts, hTs, hTried, hResult⟩ := ih hNe (hRest first fault text after hFirst hIgnore) hSound' hLast
          refine ⟨_, hCons hTs, .cons (a := ⟨p, some fault, text⟩) hSettles hTried, ?_⟩
          rw [← hResult]
          simp [Attempt.succeeded, Try.attempt, hSettles]

theorem runStatements_recorded {m : Mode} {ss : List Statement}
    (hHeedless : v.HeedlessStatements nested H.key m ss phase) (text : Bytes)
    (hSound : H.Sound phase.world phase.scope) {result : Except Fault Bytes}
    (h : (v.runStatements nested m text ss phase).Yields Phase.signaled story result last) :
    ∃ tries : List (List Try), Try.Recorded v nested phase tries.flatten story last ∧
      Statement.Tried ss (tries.map (List.map Try.attempt)) := by
  have hSure : H.key ≠ pipefailVar := hKey ▸ debugVar_ne_pipefailVar
  induction ss generalizing phase story text with
  | nil =>
    obtain ⟨rfl, rfl, rfl⟩ := Run.yields_done.mp h
    exact ⟨[], .nil, .nil⟩
  | cons s rest ih =>
    obtain ⟨hFirst, hRest⟩ := hHeedless
    obtain ⟨first, story, answer, after, rfl, hAlternatives, hLast⟩ := Run.yields_bind.mp h
    obtain ⟨ts, hTs, hTried, hAnswer⟩ :=
      runAlternatives_recorded hKey hOverlay (List.cons_ne_nil _ _) hFirst hSound hAlternatives
    cases answer with
    | error fault =>
      obtain ⟨rfl, rfl, rfl⟩ := Run.yields_done.mp hLast
      have hFailed : Attempt.succeeded (ts.map Try.attempt) = false := by
        rw [← Bool.not_eq_true, hAnswer]
        simp
      exact ⟨[ts], by simpa using hTs, .last hTried hFailed⟩
    | ok text =>
      have hSound' := (runAlternatives_tracks hFirst (fun hEq => absurd hEq hSure) hSound).fits
        (fun _ _ hFatal => hSure hFatal.1) hAlternatives
      obtain ⟨tries, hTries, hTried'⟩ := ih (hRest first text after hAlternatives) text hSound' hLast
      exact ⟨ts :: tries, hTs.append hTries, .cons hTried (hAnswer.mpr ⟨text, rfl⟩) hTried'⟩

end Invoker

namespace Script

variable {programs : Host.Programs} {context : Context} {m : Mode} {script : Script} {w : World}

theorem trace_begun (context : Context) (m : Mode) (w : World) : (begun context m w).world.trace = w.trace := by
  unfold begun Context.enter
  split <;> rfl

/-- A script that is traced comes to the same as one that is not, and shows what it has tried, one pipeline after the
other. Both are run under one schedule, the engine's: from left to right each stage goes on as far as it can, so, but
for one that runs in order, none leaves before an earlier one that does not have to wait. -/
theorem tracing_observes (hOrdered : ∀ o ∈ w.overlays, Table.Ordered o) (hFlag : context.flag w debugVar = true)
    (hHeedless : script.Heedless debugVar programs context m w) (story : List (Wait × Signal))
    (result : Except Fault String) :
    (∀ last, (script.execute programs context m (w.without debugVar)).Yields (fun _ w => w) story result last ↔
      ∃ last', (script.execute programs context m w).Yields (fun _ w => w) story result last' ∧
        last = { last'.without debugVar with trace := w.trace }) ∧
    ∀ last, (script.execute programs context m w).Yields (fun _ w => w) story result last →
      ∃ (tries : List (List Try)) (phase : Invoker.Phase),
        Try.Row ⟨programs, context, (context.enter w).1⟩ (nestedRun programs maxDepth) (begun context m w) tries.flatten
          phase ∧
        Statement.Tried script.statements (tries.map (List.map Try.attempt)) ∧
        story = tries.flatten.flatMap Try.story ∧ last = left context w phase ∧
        last.trace = w.trace ++ tries.flatten.flatMap (Try.record ⟨programs, context, (context.enter w).1⟩) := by
  let H := context.hiding w debugVar (.inr rfl)
  have hSure : debugVar ≠ pipefailVar := debugVar_ne_pipefailVar
  have hSound := sound_begun (H := H) hOrdered rfl hFlag m
  refine ⟨fun last => ⟨fun h => ?_, ?_⟩, fun last h => ?_⟩
  · exact yields_with (H := H) hHeedless (fun hKey => absurd hKey hSure) hSound hSure h
  · rintro ⟨last', h, rfl⟩
    rcases yields_without (H := H) hHeedless (fun hKey => absurd hKey hSure) hSound h with hFatal | hSecond
    · exact absurd hFatal.1 hSure
    · exact hSecond
  · obtain ⟨answer, phase, hStatements, -, rfl⟩ := execute_yields.mp h
    obtain ⟨tries, hTries, hTried⟩ :=
      Invoker.runStatements_recorded (H := H) rfl rfl hHeedless [] hSound hStatements
    refine ⟨tries, phase, hTries.row, hTried, hTries.story, rfl, ?_⟩
    rw [← trace_begun context m w]
    exact hTries.trace

/-- A pipeline fails, and the other one is tried. -/
theorem tracing_observes_fallback :
    let w : World := World.bench [(debugVar, "1")]
    let script : Script :=
      ⟨[⟨⟨[⟨["fail", "a"], [], []⟩], false, "", 0⟩, [⟨[⟨["echo", "b"], [], []⟩], false, "s", 3⟩]⟩]⟩
    Invoker.bench.context.flag w debugVar = true ∧
      ∃ last, (script.execute [] Invoker.bench.context .capture w).Yields (fun _ w => w) [] (.ok "b") last ∧
        (script.execute [] Invoker.bench.context .capture (w.without debugVar)).Yields (fun _ w => w) [] (.ok "b")
          { last.without debugVar with trace := [] } ∧
        last.trace = utf8 "+ Running [fail a]\n+ Running [echo b at s:3]\n" ∧
        ∃ tries : List (List Try), Statement.Tried script.statements (tries.map (List.map Try.attempt)) ∧
          last.trace = tries.flatten.flatMap (Try.record Invoker.bench) := by
  intro w script
  have hOrdered : ∀ o ∈ w.overlays, Table.Ordered o := List.forall_mem_singleton.mpr (List.pairwise_singleton _ _)
  have hFlag : Invoker.bench.context.flag w debugVar = true := by decide +kernel
  have hFail : Command.Spares debugVar w.builtin? ⟨["fail", "a"], [], []⟩ := ⟨_, rfl, fun _ => trivial⟩
  have hEcho : Command.Spares debugVar w.builtin? ⟨["echo", "b"], [], []⟩ :=
    ⟨_, rfl, fun p => Task.avoids_write debugVar .out _⟩
  have hHeedless : script.Heedless debugVar [] Invoker.bench.context .capture w := by
    refine heedless_of_builtins (List.forall_mem_singleton.mpr (List.forall_mem_cons.mpr ⟨?_, ?_⟩))
    · exact List.forall_mem_singleton.mpr hFail
    · exact List.forall_mem_singleton.mpr (List.forall_mem_singleton.mpr hEcho)
  have hDone : (script.execute [] Invoker.bench.context .capture w).isDone = true := by decide +kernel
  have hResult : (script.execute [] Invoker.bench.context .capture w).finish.1 = .ok "b" := by decide +kernel
  have hTrace : (script.execute [] Invoker.bench.context .capture w).finish.2.trace =
      utf8 "+ Running [fail a]\n+ Running [echo b at s:3]\n" := by decide +kernel
  have hFirst : Run.Yields (fun _ w => w) (script.execute [] Invoker.bench.context .capture w) [] _ _ :=
    Run.yields_finish hDone
  rw [hResult] at hFirst
  obtain ⟨hSame, hShown⟩ := tracing_observes hOrdered hFlag hHeedless [] (.ok "b")
  obtain ⟨tries, phase, -, hTried, -, -, hRecords⟩ := hShown _ hFirst
  exact ⟨hFlag, _, hFirst, (hSame _).mpr ⟨_, hFirst, rfl⟩, hTrace, tries, hTried, hRecords⟩

end Script

end Pipework
