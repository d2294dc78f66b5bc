import Pipework.Proofs.Flags.Course

/-!
# A pipeline that fails with any of its stages

With `SCRIPT_PIPEFAIL` set, a failure of any stage stops the pipeline and fails it. This only ever rejects: what
a script comes to when it succeeds with the variable set, it may come to without it. It is bound to come to that
if there is no race between its stages, which may take turns in any order. The engine has one order for both runs.
-/

namespace Pipework.Script

open Invoker

/-- A script that succeeds with the variable may do all the same without it, in the same order; and it will, in any
order, if there is no race. -/
theorem pipefail_only_rejects {programs : Host.Programs} {C : Calls} {mayCall : Nat → Prop} {stops : Prop}
    {context : Context} {m : Mode} {script : Script} {w last : World} {text : String}
    (hOrdered : ∀ o ∈ w.overlays, Table.Ordered o) (hFlag : context.flag w pipefailVar = true)
    (hHeedless : script.HeedlessThroughout programs C mayCall stops context m w pipefailVar)
    (hAlone : ∀ s ∈ script.statements, s.fallbacks = [] ∧ s.first.ignore = false)
    (h : script.MayEnd programs C mayCall stops context m w (.ok text) last) :
    script.MayEnd programs C mayCall stops context m (w.without pipefailVar) (.ok text) (last.without pipefailVar) ∧
      (script.Settled programs C mayCall stops context m (w.without pipefailVar) → ∀ result last',
        script.MayEnd programs C mayCall stops context m (w.without pipefailVar) result last' →
          result = .ok text ∧ last' = last.without pipefailVar) := by
  let H := context.hiding w pipefailVar (.inl rfl)
  have hSecond : script.MayEnd programs C mayCall stops context m (w.without pipefailVar) (.ok text)
      (last.without pipefailVar) :=
    mayEnd_without (H := H) hHeedless hAlone (sound_begun hOrdered rfl hFlag m) h
  exact ⟨hSecond, fun hSettled result last' hOther => hSettled _ _ _ _ hSecond hOther⟩

/-- The last stage may be the first to end. -/
theorem pipefail_only_rejects_last_first :
    let truth : Command := ⟨["true"], [], []⟩
    let echo : Command := ⟨["echo", "b"], [], []⟩
    let script : Script := ⟨[⟨⟨[truth, echo], false, "", 0⟩, []⟩]⟩
    let w : World := .bench [(pipefailVar, "1")]
    let MayEnd := script.MayEnd [] .tooDeep (fun _ => False) False Invoker.bench.context .capture
    MayEnd w (.ok "b") w ∧ MayEnd (w.without pipefailVar) (.ok "b") (w.without pipefailVar) := by
  intro truth echo script w MayEnd
  let p : Pipeline := ⟨[truth, echo], false, "", 0⟩
  let line : Line := Invoker.bench.openLine p ⟨w, .opened, false, false⟩
  let first : Worker Calls.tooDeep.State :=
    (Invoker.bench.builtinLaunch .capture 0 false truth line (.concurrent fun _ => pure ())).worker
  let start : Launch := Invoker.bench.builtinLaunch .capture 1 true echo line (.concurrent Builtin.echo)
  let second : Worker Calls.tooDeep.State := start.worker
  let written : Line := { line with captured := utf8 "b\n" }
  let done : Worker Calls.tooDeep.State := ⟨start.stage, false, .ready (.done (.ok ())) start.desk⟩
  let ended : Line := start.stage.close none start.desk written
  have hFirst : Crew.Step .bench .capture .tooDeep False (.start [truth, echo] line) (.launched 0)
      ⟨line, [echo], 1, [first], none⟩ :=
    .launch rfl rfl (by simp [Crew.start]) (Invoker.bench.launch_builtin .capture 0 false rfl rfl)
  have hSecond : Crew.Step .bench .capture .tooDeep False ⟨line, [echo], 1, [first], none⟩ (.launched 1)
      ⟨line, [], 2, [first, second], none⟩ :=
    .launch rfl rfl (List.forall_mem_singleton.mpr rfl) (Invoker.bench.launch_builtin .capture 1 true rfl rfl)
  have hWrite : Acts .tooDeep False second.stage (.on second.work, line) (.on done.work, written) :=
    @Acts.act .tooDeep False start.stage (.write .out (utf8 "b\n")) Task.check start.desk line
      (fun _ _ _ _ w => .done (.ok "") w) rfl
  have hLast : Acts .tooDeep False done.stage (.on done.work, written) (.ended none, ended) := .finish
  have hOther : Acts .tooDeep False first.stage (.on first.work, ended)
      (.ended none, first.stage.close none ⟨.nothing, [], []⟩ ended) := .finish
  have hThird :=
    @Crew.Step.act .bench .capture _ _ ⟨line, [], 2, [first, second], none⟩ [first] [] second _ _ rfl hWrite
  have hFourth :=
    @Crew.Step.finish .bench .capture _ _ ⟨written, [], 2, [first, done], none⟩ [first] [] done _ _ rfl hLast
  have hFifth := @Crew.Step.finish .bench .capture _ _ ⟨ended, [], 2, [first], none⟩ [] [] first _ _ rfl hOther
  have hOne : ∀ u ∈ [first], u.work.isReading = false := List.forall_mem_singleton.mpr rfl
  have hBoth : ∀ u ∈ [first, second], u.work.isReading = false :=
    List.forall_mem_cons.mpr ⟨rfl, List.forall_mem_singleton.mpr rfl⟩
  have hBoth' : ∀ u ∈ [first, done], u.work.isReading = false :=
    List.forall_mem_cons.mpr ⟨rfl, List.forall_mem_singleton.mpr rfl⟩
  have hCourse : MayEnd w (.ok (capturedText (utf8 "b\n"))) w := by
    refine .head ⟨.enter, .inr, trivial⟩ ?_
    refine .head ⟨.take, .inr, trivial⟩ ?_
    refine .head ⟨.run hFirst, .inr, _, hFirst, trivial, by rintro ⟨⟩⟩ ?_
    refine .head ⟨.run hSecond, .inr, _, hSecond, trivial, by rintro ⟨⟩⟩ ?_
    refine .head ⟨.run hThird, .inr, _, hThird, Crew.prompt_of_ready hBoth _, by rintro ⟨⟩⟩ ?_
    refine .head ⟨.run hFourth, .inr, _, hFourth, Crew.prompt_of_ready hBoth' _, by rintro ⟨⟩⟩ ?_
    refine .head ⟨.run hFifth, .inr, _, hFifth, Crew.prompt_of_ready hOne _, by rintro ⟨⟩⟩ ?_
    refine .head ⟨.conclude ⟨rfl, .inl rfl⟩, .inr, trivial⟩ ?_
    exact .single ⟨.leave, .inr, trivial⟩
  have hText : capturedText (utf8 "b\n") = "b" := by decide +kernel
  rw [hText] at hCourse
  have hOrdered : ∀ o ∈ w.overlays, Table.Ordered o := List.forall_mem_singleton.mpr (List.pairwise_singleton _ _)
  have hFlag : Invoker.bench.context.flag w pipefailVar = true := by decide +kernel
  have hAlone : ∀ s ∈ script.statements, s.fallbacks = [] ∧ s.first.ignore = false := by decide
  have hCommands : ∀ s ∈ script.statements, ∀ p ∈ s.alternatives, ∀ c ∈ p.commands,
      c.Spares pipefailVar w.builtin? := by
    have hTruth : truth.Spares pipefailVar w.builtin? := ⟨_, rfl, fun _ => trivial⟩
    have hEcho : echo.Spares pipefailVar w.builtin? := ⟨_, rfl, fun _ => Task.avoids_write pipefailVar .out _⟩
    simp [script, Statement.alternatives, hTruth, hEcho]
  refine ⟨hCourse, (pipefail_only_rejects hOrdered hFlag ?_ hAlone hCourse).1⟩
  exact heedlessThroughout_of_builtins hCommands

/-- A script that succeeds if the failure of any stage fails its pipeline succeeds without this as well, and does all
the same. -/
theorem succeeds_without_pipefail {programs : Host.Programs} {context : Context} {m : Mode} {script : Script}
    {w last : World} (hOrdered : ∀ o ∈ w.overlays, Table.Ordered o) (hFlag : context.flag w pipefailVar = true)
    (hHeedless : script.Heedless pipefailVar programs context m w)
    (hAlone : ∀ s ∈ script.statements, s.fallbacks = [] ∧ s.first.ignore = false)
    {story : List (Wait × Signal)} {text : String}
    (h : (script.execute programs context m w).Yields (fun _ w => w) story (.ok text) last) :
    (script.execute programs context m (w.without pipefailVar)).Yields (fun _ w => w) story (.ok text)
      (last.without pipefailVar) := by
  let H := context.hiding w pipefailVar (.inl rfl)
  have hSound := sound_begun (H := H) hOrdered rfl hFlag m
  rcases yields_without (H := H) hHeedless (fun _ => hAlone) hSound h with ⟨-, fault, hFault⟩ | hSecond
  · cases hFault
  · exact hSecond

theorem succeeds_without_pipefail_piped :
    let host : Host := ⟨[], "/", ⟨[(["bin"], .directory), (["bin", "true"], .file Host.programMark true)]⟩⟩
    let w : World := { World.bench [(pipefailVar, "1")] with host := host }
    let programs : Host.Programs := [("true", fun _ => pure ())]
    let script : Script := ⟨[⟨⟨[⟨["/bin/true"], [], []⟩, ⟨["echo", "b"], [], []⟩], false, "", 0⟩, []⟩]⟩
    Invoker.bench.context.flag w pipefailVar = true ∧
      ∃ last, (script.execute programs Invoker.bench.context .capture w).Yields (fun _ w => w) [] (.ok "b") last ∧
        (script.execute programs Invoker.bench.context .capture (w.without pipefailVar)).Yields (fun _ w => w) []
          (.ok "b") (last.without pipefailVar) := by
  intro host w programs script
  have hOrdered : ∀ o ∈ w.overlays, Table.Ordered o := List.forall_mem_singleton.mpr (List.pairwise_singleton _ _)
  have hFlag : Invoker.bench.context.flag w pipefailVar = true := by decide +kernel
  have hAlone : ∀ s ∈ script.statements, s.fallbacks = [] ∧ s.first.ignore = false := by decide
  have hPrograms : Host.Unaware pipefailVar programs := by
    intro entry hEntry spawn
    obtain rfl := List.mem_singleton.mp hEntry
    exact ⟨trivial, rfl⟩
  have hHeedless : script.Heedless pipefailVar programs Invoker.bench.context .capture w := by
    let v : Invoker := ⟨programs, Invoker.bench.context, 0⟩
    let line : Line := v.firstLine ⟨[⟨["/bin/true"], [], []⟩, ⟨["echo", "b"], [], []⟩], false, "", 0⟩
      (begun Invoker.bench.context .capture w)
    have hEcho : line.world.builtin? "echo" = some (Builtin.concurrent Builtin.echo) := rfl
    have hProcess : v.Ignores pipefailVar .capture 0 false ⟨["/bin/true"], [], []⟩ line := by
      refine ignores_process (Option.isNone_iff_eq_none.mp (by decide +kernel)) hPrograms fun value hValue => ?_
      have hEnv : v.processEnv line.world ⟨["/bin/true"], [], []⟩ = [(pipefailVar, "1")] := by decide +kernel
      rw [hEnv] at hValue
      obtain ⟨-, rfl⟩ := Prod.mk.inj (List.mem_singleton.mp hValue)
      decide +kernel
    have hRest {line' : Line} (h : line'.world.ground = line.world.ground) :
        v.Heedless (nestedRun programs maxDepth) pipefailVar .capture 1 [⟨["echo", "b"], [], []⟩] line' := by
      refine heedless_of_spares (List.forall_mem_singleton.mpr ?_) (congrArg Prod.fst h)
      exact ⟨_, hEcho, fun p => Task.avoids_write pipefailVar .out _⟩
    exact ⟨⟨⟨hProcess, fun start line' hLaunch => hRest (ground_launched hProcess hLaunch)⟩,
      fun _ _ _ _ _ _ => trivial⟩, fun _ _ _ _ => trivial⟩
  have hDone : (script.execute programs Invoker.bench.context .capture w).isDone = true := by decide +kernel
  have hResult : (script.execute programs Invoker.bench.context .capture w).finish.1 = .ok "b" := by decide +kernel
  have hFirst : Run.Yields (fun _ w => w) (script.execute programs Invoker.bench.context .capture w) [] _ _ :=
    Run.yields_finish hDone
  rw [hResult] at hFirst
  exact ⟨hFlag, _, hFirst, succeeds_without_pipefail hOrdered hFlag hHeedless hAlone hFirst⟩

end Pipework.Script
