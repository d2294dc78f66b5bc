import Pipework.Proofs.Stage.Launch

/-!
# Why a command is not launched

A launch is refused for one of two reasons. A file that a redirection names cannot be opened: then the fault
of the file system is passed on as it is. Or no process can be started for a command that is no builtin: then
the fault tells of a stage that never ran. Faults of the file systems tell of no stage.
-/

namespace Pipework

theorem Fault.isNotFound_of_failure? {fault : Fault} (h : fault.failure? = none) : fault.isNotFound = false := by
  rw [isNotFound, h]

theorem Failure.isNotFound_ofStart (command : String) (cause : Fault) :
    (ofStart command cause).toFault.isNotFound = true := rfl

/-- A stage that ran is reported under its own command, and never as one that did not start: what it ended with
is kept as the cause only with a code other than 0. -/
theorem Failure.ofFault_ran (command : String) (log : Bytes) {fault : Fault} (h : fault.failure? = none) :
    (ofFault command log fault).command = command ∧
      (ofFault command log fault).toFault.isNotFound = false := by
  rw [ofFault, h]
  cases fault.exit? with
  | some ending => exact ⟨rfl, rfl⟩
  | none => exact ⟨rfl, rfl⟩

/-- What goes wrong, if anything does, tells of no stage. -/
def Foreign {α : Type} (reply : Except Fault α) : Prop := ∀ fault, reply = .error fault → fault.failure? = none

namespace Foreign

variable {α β : Type}

theorem ok (a : α) : Foreign (.ok a) := by
  rintro fault ⟨⟩

theorem error {fault : Fault} (h : fault.failure? = none) : Foreign (α := α) (.error fault) := by
  rintro _ ⟨⟩
  exact h

theorem bind {reply : Except Fault α} {next : α → Except Fault β} (h : Foreign reply)
    (hNext : ∀ a, Foreign (next a)) : Foreign (reply >>= next) := by
  cases reply with
  | ok a => exact hNext a
  | error fault => exact error (h fault rfl)

theorem map {reply : Except Fault α} (f : α → β) (h : Foreign reply) : Foreign (reply.map f) := by
  cases reply with
  | ok a => exact ok (f a)
  | error fault => exact error (h fault rfl)

end Foreign

namespace Host

theorem foreign_walk (t : FileTree) (p : Place) (parts : List String) : Foreign (walk t p parts) := by
  induction parts generalizing p with
  | nil => exact .ok p
  | cons part parts ih =>
    unfold walk
    split
    · split
      · exact ih p
      · split
        · exact ih _
        · split
          · exact .error rfl
          · exact ih _
    · refine .error ?_
      split <;> rfl

theorem foreign_locate (h : Host) (path : String) : Foreign (h.locate path) := by
  unfold locate
  split
  · exact .error rfl
  · split
    · exact .error rfl
    · split
      · exact .error rfl
      · exact foreign_walk _ _ _

theorem foreign_node? (h : Host) (path : String) : Foreign (h.node? path) := by
  refine .bind (h.foreign_locate path) ?_
  intro p
  split
  · exact .ok _
  · exact .error rfl

theorem foreign_touch (h : Host) (path : String) : Foreign (h.touch path) := by
  refine .bind (h.foreign_locate _) ?_
  intro p
  dsimp only
  split
  · exact .error rfl
  · refine .bind (h.foreign_locate path) ?_
    intro q
    exact .ok _
  · split
    · exact .error rfl
    · exact .ok _

theorem foreign_answer (h : Host) (request : FileRequest) : Foreign (h.answer request) := by
  cases request with
  | read path =>
    refine .bind (h.foreign_node? path) ?_
    intro node
    cases node <;> exact .ok _
  | load path =>
    refine .bind (h.foreign_node? path) ?_
    intro node
    split
    · exact .ok _
    · exact .error rfl
  | create path =>
    refine .bind (h.foreign_touch path) ?_
    intro touched
    exact .ok _
  | append path =>
    refine .bind (h.foreign_touch path) ?_
    intro touched
    exact .ok _
  | write path position data =>
    refine .bind (h.foreign_locate path) ?_
    intro p
    exact .ok _
  | commit path data => exact .ok _
  | release path => exact .ok _
  | isDirectory path =>
    refine .bind (h.foreign_node? path) ?_
    intro node
    split
    · exact .ok _
    · exact .error rfl
  | list path =>
    refine .bind (h.foreign_node? path) ?_
    intro node
    dsimp only
    split
    · refine .bind (h.foreign_locate path) ?_
      intro p
      exact .ok _
    · exact .error rfl
  | makeDirectory path =>
    refine .bind (h.foreign_locate _) ?_
    intro p
    dsimp only
    split
    · exact .error rfl
    · exact .ok _
  | removeDirectory path =>
    refine .bind (h.foreign_locate path) ?_
    intro p
    refine .bind (h.foreign_node? path) ?_
    intro node
    split
    · split
      · exact .ok _
      · exact .error rfl
    · exact .error rfl
  | setExecutable path executable =>
    refine .bind (h.foreign_node? path) ?_
    intro node
    split
    · refine .bind (h.foreign_locate path) ?_
      intro p
      exact .ok _
    · exact .ok _

theorem foreign_serve (h : Host) (request : FileRequest) : Foreign (h.serve request).1 := by
  have hAnswer := h.foreign_answer request
  unfold serve
  split
  · exact .ok _
  · next fault hFault => exact .error (hAnswer fault hFault)

theorem foreign_makeAll (h : Host) (path : String) : Foreign (h.makeAll path) := by
  unfold makeAll
  dsimp only
  split
  · exact .error rfl
  · split
    · exact .ok _
    · exact .error rfl

theorem foreign_answerMaking (h : Host) (request : FileRequest) : Foreign (h.answerMaking request) := by
  unfold answerMaking
  split
  · exact foreign_answer _ _
  · exact foreign_answer _ _
  · exact foreign_answer _ _

theorem foreign_serveBuiltin (h : Host) (request : FileRequest) : Foreign (h.serveBuiltin request).1 := by
  have hMake := h.foreign_makeAll (subject request)
  have hAnswer := h.foreign_answerMaking (about (h.absolute (subject request)) request)
  unfold serveBuiltin
  dsimp only
  split
  · exact .error rfl
  · split
    · split
      · exact .ok _
      · next fault hFault => exact .error (hMake fault hFault)
    · split
      · exact .ok _
      · next fault hFault => exact .error (hAnswer fault hFault)

end Host

namespace World

theorem foreign_serveMemory (t : FileTree) (request : FileRequest) : Foreign (serveMemory t request) := by
  have hTouch : ∀ verb path, Foreign (Memory.touch verb t path) := by
    intro verb path
    unfold Memory.touch
    dsimp only
    split
    · exact .ok _
    · split
      · exact .ok _
      · exact .error rfl
  have hOpen : ∀ path, Foreign (Memory.open? t path) := by
    intro path
    unfold Memory.open?
    split
    · exact .ok _
    · exact .ok _
    · exact .ok _
    · exact .error rfl
  cases request with
  | read path => exact (hOpen path).map _
  | load path => exact (hOpen path).map _
  | create path => exact ((hTouch "create" path).map _).map _
  | append path =>
    refine Foreign.map _ ?_
    unfold Memory.append
    split
    · split
      · exact .error rfl
      · exact hTouch "append" path
    · exact .ok _
  | isDirectory path =>
    unfold serveMemory
    dsimp only
    split
    · exact .ok _
    · exact .error rfl
  | makeDirectory path =>
    refine Foreign.map _ ?_
    unfold Memory.makeAll
    split
    · exact .ok _
    · exact .error rfl
  | _ => exact .ok _

/-- Whatever is asked of the files, a fault of theirs tells of no stage. -/
theorem foreign_serve (w : World) (storage : Storage) (request : FileRequest) :
    Foreign (w.serve storage request).1 := by
  unfold serve
  split
  · exact w.host.foreign_serve request
  · split
    · have hMemory := foreign_serveMemory w.memory request
      split
      · exact .ok _
      · next fault hFault => exact .error (hMemory fault hFault)
    · exact w.host.foreign_serveBuiltin request

end World

namespace Wiring

/-- What is asked of the files for the redirection of a stream to the file at `path`. -/
def request (r : Redirection) (path : String) : FileRequest :=
  if r.fd = 0 then .read path else if r.append then .append path else .create path

theorem redirect_error {storage : Storage} {dir : String} {w : Wiring} {r : Redirection} {world : World}
    {fault : Fault} (h : (w.redirect storage dir r world).1 = .error fault) :
    ∃ path, r.target = .file path ∧
      (world.serve storage (request r (Path.resolve dir path))).1 = .error fault := by
  have hMap : ∀ {α β : Type} {reply : Except Fault α} {f : α → β}, reply.map f = .error fault →
      reply = .error fault := by
    intro α β reply f hReply
    cases reply with
    | ok a => cases hReply
    | error _ => exact congrArg _ (Except.error.inj hReply)
  unfold redirect at h
  split at h
  · next hFd =>
    split at h
    · cases h
    · cases h
    · next path hTarget =>
      refine ⟨path, hTarget, ?_⟩
      rw [request, if_pos hFd]
      exact hMap h
  · next hFd =>
    split at h
    · cases h
    · cases h
    · next path hTarget =>
      refine ⟨path, hTarget, ?_⟩
      rw [request, if_neg hFd]
      exact hMap h

/-- Redirections fail with what the files answer to one of them, after those before it. -/
theorem redirectAll_error {storage : Storage} {dir : String} {w : Wiring} {rs : List Redirection} {world : World}
    {fault : Fault} (h : (w.redirectAll storage dir rs world).1 = .error fault) :
    ∃ before r after path w' world', rs = before ++ r :: after ∧ r.target = .file path ∧
      w.redirectAll storage dir before world = (.ok w', world') ∧
      (world'.serve storage (request r (Path.resolve dir path))).1 = .error fault := by
  induction rs generalizing w world with
  | nil => cases h
  | cons r rs ih =>
    rw [redirectAll] at h
    cases hFirst : w.redirect storage dir r world with
    | mk reply world₁ =>
      rw [hFirst] at h
      cases reply with
      | ok w₁ =>
        obtain ⟨before, r', after, path, w', world', rfl, hTarget, hBefore, hServe⟩ := ih h
        refine ⟨r :: before, r', after, path, w', world', rfl, hTarget, ?_, hServe⟩
        rw [redirectAll, hFirst]
        exact hBefore
      | error fault' =>
        obtain rfl : fault' = fault := Except.error.inj h
        obtain ⟨path, hTarget, hServe⟩ := redirect_error (congrArg Prod.fst hFirst)
        exact ⟨[], r, rs, path, _, world, rfl, hTarget, rfl, hServe⟩

end Wiring

namespace Invoker

variable (v : Invoker) (index : Nat) (c : Command) (line : Line)

/-- The files that the redirections of a command name. -/
def storageOf : Storage := if (line.world.builtin? (c.args.headD "")).isSome then .shell else .host

/-- The streams of the stage `index` after redirections of the command `c`, and the world then. -/
def redirected (rs : List Redirection) : Except Fault Wiring × World :=
  (Wiring.initial (if index = 0 then .host else .pipe)).redirectAll (storageOf c line) (v.directory line.world) rs
    line.world

/-- After the redirections before it, one of the command names a file that cannot be opened, and `fault` is what
the file system gives as the reason. -/
def Unopened (fault : Fault) : Prop :=
  ∃ before r after path w world, c.redirections = before ++ r :: after ∧ r.target = .file path ∧
    v.redirected index c line before = (.ok w, world) ∧
    (world.serve (storageOf c line) (Wiring.request r (Path.resolve (v.directory line.world) path))).1 =
      .error fault

/-- The command is no builtin, its redirections are made, and its process cannot be started because of `cause`. -/
def Unstarted (cause : Fault) : Prop :=
  line.world.builtin? (c.args.headD "") = none ∧
    ∃ w world, v.redirected index c line c.redirections = (.ok w, world) ∧
      Host.start v.programs world.host line.canceled (v.directory line.world) c.args (v.processEnv world c) =
        .error cause

variable {v index c line} {output : Output} {isLast : Bool}

theorem launch_error {fault : Fault} {line' : Line}
    (h : v.launch output index isLast c line = (.error fault, line')) :
    v.Unopened index c line fault ∨ ∃ cause, v.Unstarted index c line cause ∧
      fault = (Failure.ofStart (located (v.directory line.world) c.render) cause).toFault := by
  unfold launch at h
  dsimp only at h
  split at h
  · next fault' world hRedirect =>
    cases h
    exact .inl (Wiring.redirectAll_error (congrArg Prod.fst hRedirect))
  · next w world hRedirect =>
    split at h
    · cases h
    · next hBuiltin =>
      split at h
      · next cause hStart =>
        cases h
        exact .inr ⟨cause, ⟨hBuiltin, w, world, hRedirect, hStart⟩, rfl⟩
      · cases h

theorem launch_unstarted {w : Wiring} {world : World} {cause : Fault}
    (hBuiltin : line.world.builtin? (c.args.headD "") = none)
    (hRedirected : v.redirected index c line c.redirections = (.ok w, world))
    (hStart : Host.start v.programs world.host line.canceled (v.directory line.world) c.args (v.processEnv world c) =
      .error cause) :
    v.launch output index isLast c line =
      (.error (Failure.ofStart (located (v.directory line.world) c.render) cause).toFault,
        { line with world := w.abandon world }) := by
  unfold redirected storageOf at hRedirected
  unfold launch
  dsimp only
  rw [hRedirected]
  dsimp only
  rw [hBuiltin, hStart]

/-- A fault of the files is not taken for that of a command that did not start. -/
theorem Unopened.isNotFound {fault : Fault} (h : v.Unopened index c line fault) : fault.isNotFound = false := by
  obtain ⟨_, _, _, _, _, _, -, -, -, hServe⟩ := h
  exact Fault.isNotFound_of_failure? (World.foreign_serve _ _ _ fault hServe)

theorem launch_ok {start : Launch} {line' : Line} (h : v.launch output index isLast c line = (.ok start, line')) :
    start.stage.shown = located (v.directory line.world) c.render ∧
      (start.stage.isProcess = true → ∃ host dir env,
        Host.start v.programs host line.canceled dir c.args env = .ok start.task) := by
  unfold launch at h
  dsimp only at h
  split at h
  · cases h
  · split at h
    · cases h
      exact ⟨rfl, fun hProcess => by cases hProcess⟩
    · split at h
      · cases h
      · next task hStart =>
        cases h
        exact ⟨rfl, fun _ => ⟨_, _, _, hStart⟩⟩

end Invoker

namespace Host

/-- A program that is started is one of the host's, and is handed the variables `env`. -/
def Offers (programs : Programs) (env : Table) (reply : Except Fault (Task Unit)) : Prop :=
  ∀ task, reply = .ok task → ∃ entry ∈ programs, ∃ spawn, spawn.env = env ∧ task = entry.2 spawn

theorem Offers.bind {programs : Programs} {env : Table} {α : Type} {reply : Except Fault α}
    {next : α → Except Fault (Task Unit)} (h : ∀ a, Offers programs env (next a)) :
    Offers programs env (reply >>= next) := by
  cases reply with
  | ok a => exact h a
  | error fault =>
    rintro task ⟨⟩

theorem offers_behaviour (programs : Programs) (path : String) (data : Bytes) (spawn : Spawn) :
    Offers programs spawn.env (behaviour programs path data spawn) := by
  unfold behaviour
  split
  · next program hFound =>
    rintro task ⟨⟩
    have hLookup : programs.lookup (Path.base path) = some program := by
      split at hFound
      · exact hFound
      · cases hFound
    have hMem : (Path.base path, program) ∈ programs := by
      obtain ⟨before, after, rfl, -⟩ := List.lookup_eq_some_iff.mp hLookup
      exact List.mem_append_right before List.mem_cons_self
    exact ⟨_, hMem, spawn, rfl, rfl⟩
  · rintro task ⟨⟩

theorem offers_interpret (load : String → Except Fault Bytes) (programs : Programs) (limit : Nat) (path : String)
    (data : Bytes) (spawn : Spawn) :
    Offers programs spawn.env (Id.run (interpret (fun name => pure (load name)) programs limit path data spawn)) := by
  induction limit generalizing path data spawn with
  | zero =>
    rintro task ⟨⟩
  | succ limit ih =>
    unfold interpret
    split
    · exact offers_behaviour programs path data spawn
    · next name options hInterpreter =>
      rw [pure_bind]
      cases load name with
      | ok program => exact ih name program _
      | error fault =>
        rintro task ⟨⟩

theorem Offers.ite {programs : Programs} {env : Table} {p : Prop} [Decidable p] {a b : Except Fault (Task Unit)}
    (ha : Offers programs env a) (hb : Offers programs env b) : Offers programs env (if p then a else b) := by
  split
  · exact ha
  · exact hb

theorem Offers.unless {programs : Programs} {env : Table} {p : Prop} [Decidable p] {fault : Fault}
    {next : Unit → Except Fault (Task Unit)} (h : Offers programs env (next ())) :
    Offers programs env (if p then throw fault >>= next else next ()) := by
  refine .ite ?_ h
  rintro task ⟨⟩

theorem Offers.mapError {programs : Programs} {env : Table} {reply : Except Fault (Task Unit)} (f : Fault → Fault)
    (h : Offers programs env reply) : Offers programs env (reply.mapError f) := by
  cases reply with
  | ok task => exact h
  | error fault =>
    rintro task ⟨⟩

theorem start_of_programPath {programs : Programs} {h : Host} {args : List String} {fault : Fault}
    (hPath : h.programPath (args.headD "") = .error fault) (canceled : Bool) (dir : String) (env : Table) :
    start programs h canceled dir args env = .error fault := by
  unfold start
  rw [hPath]
  rfl

theorem offers_start (programs : Programs) (h : Host) (canceled : Bool) (dir : String) (args : List String)
    (env : Table) : Offers programs env (start programs h canceled dir args env) := by
  unfold start
  refine .bind fun path => ?_
  refine .unless ?_
  refine .unless ?_
  refine .ite ?_ ?_
  cases h.node? dir
  case error fault =>
    rintro task ⟨⟩
  -- With a directory or without one, the rest is the same.
  all_goals
    refine .unless ?_
    refine .unless ?_
    refine .mapError _ ?_
    refine .bind fun data => ?_
    refine .unless ?_
    exact offers_interpret _ programs maxInterpreters path data _

end Host

end Pipework
