import Pipework.Proofs.Flags.Script

/-!
# Scripts that ignore a variable

Whether a script ignores a variable can be read off the builtins and the programs that it runs.
-/

namespace Pipework

theorem Task.avoids_write (key : String) (channel : Channel) (data : Bytes) :
    Program.Avoids key (Task.write channel data) := by
  refine ⟨trivial, fun refused => ?_⟩
  cases refused <;> trivial

namespace Host

/-- No program asks for the variable `key`, sets it or runs a script, or is another one if it is started without the
variable. -/
def Unaware (key : String) (programs : Programs) : Prop :=
  ∀ entry ∈ programs, ∀ spawn : Spawn,
    Program.Avoids key (entry.2 spawn) ∧ entry.2 { spawn with env := spawn.env.erase key } = entry.2 spawn

/-- No process is refused because of the variable `key`. -/
def Bears (key : String) (env : Table) : Prop :=
  ∀ value, (key, value) ∈ env → (hasZero key || hasZero value) = false ∧
    key.utf8ByteSize + 1 + value.utf8ByteSize ≤ maxArgument

variable {key : String} {programs : Programs} {env : Table}

theorem any_erase {bad : String × String → Bool} (h : ∀ value, (key, value) ∈ env → bad (key, value) = false) :
    (env.erase key).any bad = env.any bad := by
  rw [Bool.eq_iff_iff, List.any_eq_true, List.any_eq_true]
  constructor
  · rintro ⟨entry, hEntry, hBad⟩
    exact ⟨entry, (List.mem_filter.mp hEntry).1, hBad⟩
  · rintro ⟨⟨name, value⟩, hEntry, hBad⟩
    refine ⟨(name, value), List.mem_filter.mpr ⟨hEntry, ?_⟩, hBad⟩
    rw [decide_eq_true_iff]
    rintro rfl
    rw [h value hEntry] at hBad
    cases hBad

theorem isOverlong_erase (hBears : Bears key env) (args : List String) :
    isOverlong args (env.erase key) = isOverlong args env := by
  unfold isOverlong
  rw [any_erase fun value hValue => decide_eq_false (Nat.not_lt.mpr (hBears value hValue).2)]

theorem behaviour_erase (hPrograms : Unaware key programs) (path : String) (data : Bytes) (spawn : Spawn) :
    behaviour programs path data { spawn with env := spawn.env.erase key } = behaviour programs path data spawn := by
  unfold behaviour
  split
  · next program hFound =>
    split at hFound
    · obtain ⟨before, after, rfl, -⟩ := List.lookup_eq_some_iff.mp hFound
      have hMem : (Path.base path, program) ∈ before ++ (Path.base path, program) :: after :=
        List.mem_append_right before List.mem_cons_self
      exact congrArg Except.ok (hPrograms _ hMem spawn).2
    · cases hFound
  · rfl

theorem interpret_erase (hPrograms : Unaware key programs) (load : String → Except Fault Bytes) (limit : Nat)
    (path : String) (data : Bytes) (spawn : Spawn) :
    Id.run (interpret (fun name => pure (load name)) programs limit path data
        { spawn with env := spawn.env.erase key }) =
      Id.run (interpret (fun name => pure (load name)) programs limit path data spawn) := by
  induction limit generalizing path data spawn with
  | zero => rfl
  | succ limit ih =>
    unfold interpret
    split
    · exact behaviour_erase hPrograms path data spawn
    · next name options hInterpreter =>
      rw [pure_bind, pure_bind]
      cases load name with
      | ok program => exact ih name program { spawn with args := name :: options ++ path :: spawn.args.tail }
      | error fault => rfl

theorem start_erase (hPrograms : Unaware key programs) (hBears : Bears key env) (h : Host) (canceled : Bool)
    (dir : String) (args : List String) :
    start programs h canceled dir args (env.erase key) = start programs h canceled dir args env := by
  have hInterpret (load : String → Except Fault Bytes) (path : String) (data : Bytes) :=
    interpret_erase hPrograms load maxInterpreters path data ⟨args, env, h.absolute dir⟩
  unfold start
  rw [any_erase]
  · simp only [isOverlong_erase hBears, hInterpret]
  · exact fun value hValue => (hBears value hValue).1

end Host

/-- The command runs a builtin that does not ask for the variable `key`, set it or run a script. -/
def Command.Spares (key : String) (builtins : String → Option Builtin) (c : Command) : Prop :=
  ∃ b, builtins (c.args.headD "") = some b ∧ ∀ p, Program.Avoids key (b.task p)

namespace Invoker

variable {v : Invoker} {nested : Nested} {key : String} {output : Output} {index : Nat} {isLast : Bool} {c : Command}
  {line : Line}

theorem ignores_builtin {b : Builtin} (hFound : line.world.builtin? (c.args.headD "") = some b)
    (hAvoids : ∀ p, Program.Avoids key (b.task p)) : v.Ignores key output index isLast c line where
  avoids start line' hLaunch := by
    have hHands := launch_hands hLaunch
    split at hHands
    · rw [hFound] at hHands
      cases hHands.1
    · obtain ⟨b', p, hFound', -, hTask⟩ := hHands
      rw [hFound] at hFound'
      cases hFound'
      rw [hTask]
      exact hAvoids p
  blind hNone := by
    rw [hFound] at hNone
    cases hNone

theorem ignores_process (hNone : line.world.builtin? (c.args.headD "") = none) (hPrograms : Host.Unaware key v.programs)
    (hBears : Host.Bears key (v.processEnv line.world c)) : v.Ignores key output index isLast c line where
  avoids start line' hLaunch := by
    have hHands := launch_hands hLaunch
    split at hHands
    · obtain ⟨-, program, hProgram, spawn, -, hTask⟩ := hHands
      rw [hTask]
      exact (hPrograms program hProgram spawn).1
    · obtain ⟨b, p, hFound, -⟩ := hHands
      rw [hNone] at hFound
      cases hFound
  blind _ wiring world hRedirected := by
    have hTables := World.tables_serve.redirectAll .host (v.directory line.world)
      (Wiring.initial (if index = 0 then Source.host else .pipe)) c.redirections line.world
    rw [hRedirected] at hTables
    rw [processEnv_of_tables v c hTables]
    exact Host.start_erase hPrograms hBears _ _ _ _

variable {builtins : String → Option Builtin} {phase : Phase}

theorem ground_launched (hIgnores : v.Ignores key output index isLast c line) {start : Launch} {line' : Line}
    (hLaunch : v.launch output index isLast c line = (.ok start, line')) :
    (if start.inOrder then (start.run nested line').complete.2 else line').world.ground = line.world.ground := by
  have hGround := v.ground_launch output index isLast c line
  rw [hLaunch] at hGround
  have hRun := (start.stage.run_advances nested (hIgnores.avoids start line' hLaunch) start.desk line').complete
    Line.Later.chain
  split
  · exact hRun.ground.trans hGround
  · exact hGround

theorem heedless_of_spares {commands : List Command} (hCommands : ∀ c ∈ commands, c.Spares key builtins)
    (hBuiltins : line.world.builtin? = builtins) : v.Heedless nested key output index commands line := by
  induction commands generalizing index line with
  | nil => trivial
  | cons c rest ih =>
    obtain ⟨⟨b, hFound, hAvoids⟩, hRest⟩ := List.forall_mem_cons.mp hCommands
    have hIgnores : v.Ignores key output index rest.isEmpty c line := ignores_builtin (hBuiltins ▸ hFound) hAvoids
    refine ⟨hIgnores, fun start line' hLaunch => ih hRest ?_⟩
    exact (congrArg Prod.fst (ground_launched hIgnores hLaunch)).trans hBuiltins

theorem heedlessAlternatives_of_spares {ps : List Pipeline}
    (hCommands : ∀ p ∈ ps, ∀ c ∈ p.commands, c.Spares key builtins) (hBuiltins : phase.world.builtin? = builtins) :
    v.HeedlessAlternatives nested key output ps phase := by
  induction ps generalizing phase with
  | nil => trivial
  | cons p rest ih =>
    obtain ⟨hFirst, hRest⟩ := List.forall_mem_cons.mp hCommands
    have hTraced : (v.traced p phase.world).builtin? = builtins :=
      (congrArg Prod.fst (v.ground_traced p phase.world)).trans hBuiltins
    have hHeedless : v.Heedless nested key output 0 p.commands (v.firstLine p phase) :=
      heedless_of_spares hFirst hTraced
    refine ⟨hHeedless, fun story fault text after hYields hIgnore => ih hRest ?_⟩
    exact (congrArg Prod.fst (later_runPipeline hHeedless hYields).2).trans hBuiltins

theorem heedlessStatements_of_spares {m : Mode} {ss : List Statement}
    (hCommands : ∀ s ∈ ss, ∀ p ∈ s.alternatives, ∀ c ∈ p.commands, c.Spares key builtins)
    (hBuiltins : phase.world.builtin? = builtins) : v.HeedlessStatements nested key m ss phase := by
  induction ss generalizing phase with
  | nil => trivial
  | cons s rest ih =>
    obtain ⟨hFirst, hRest⟩ := List.forall_mem_cons.mp hCommands
    have hHeedless : v.HeedlessAlternatives nested key (m.output rest.isEmpty) s.alternatives phase :=
      heedlessAlternatives_of_spares hFirst hBuiltins
    refine ⟨hHeedless, fun story text after hYields => ih hRest ?_⟩
    exact (congrArg Prod.fst (ground_runAlternatives hHeedless hYields)).trans hBuiltins

end Invoker

theorem Script.heedless_of_builtins {key : String} {programs : Host.Programs} {context : Context} {m : Mode}
    {script : Script} {w : World}
    (hCommands : ∀ s ∈ script.statements, ∀ p ∈ s.alternatives, ∀ c ∈ p.commands, c.Spares key w.builtin?) :
    script.Heedless key programs context m w := by
  refine Invoker.heedlessStatements_of_spares hCommands ?_
  unfold begun Context.enter
  split <;> rfl

end Pipework
