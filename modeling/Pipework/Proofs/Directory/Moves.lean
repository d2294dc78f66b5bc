import Pipework.Proofs.Directory.Change
import Pipework.Proofs.Directory.Keeping
import Pipework.Proofs.Stage.Refusal

/-!
# A stage and its directory

A command finds out where it works when it is launched, and nothing that happens later matters for that. If it is a
`cd` it goes through a few steps, of which one sets the directory and none waits.
-/

namespace Pipework

namespace Invoker

/-- The streams of the stage `index` if its redirections find files from the directory `dir`. -/
def wired (dir : String) (index : Nat) (c : Command) (line : Line) : Except Fault Wiring × World :=
  (Wiring.initial (if index = 0 then .host else .pipe)).redirectAll (storageOf c line) dir c.redirections line.world

/-- The command `c` is launched in the directory `dir`: its redirections find files from there, a builtin is told of
it, a process is started in it, and failures are shown with it. -/
inductive LaunchesIn (v : Invoker) (dir : String) (index : Nat) (c : Command) (line : Line) :
    Except Fault Launch × Line → Prop
  | unopened {fault : Fault} {world : World} (hWired : wired dir index c line = (.error fault, world)) :
    LaunchesIn v dir index c line (.error fault, { line with world := world })
  | builtin {w : Wiring} {world : World} {b : Builtin} {start : Launch}
      (hWired : wired dir index c line = (.ok w, world)) (hBuiltin : line.world.builtin? (c.args.headD "") = some b)
      (hTask : start.task = b.task ⟨c.args, c.env, dir, w.source == .host⟩)
      (hShown : start.stage.shown = located dir c.render) (hOrder : start.inOrder = b.inOrder)
      (hProcess : start.stage.isProcess = false) :
    LaunchesIn v dir index c line (.ok start, { line with world := world })
  | unstarted {w : Wiring} {world : World} {cause : Fault} (hWired : wired dir index c line = (.ok w, world))
      (hBuiltin : line.world.builtin? (c.args.headD "") = none)
      (hStart : Host.start v.programs world.host line.canceled dir c.args (v.processEnv world c) = .error cause) :
    LaunchesIn v dir index c line
      (.error (Failure.ofStart (located dir c.render) cause).toFault, { line with world := w.abandon world })
  | process {w : Wiring} {world : World} {start : Launch} {input : Bytes}
      (hWired : wired dir index c line = (.ok w, world)) (hBuiltin : line.world.builtin? (c.args.headD "") = none)
      (hStart : Host.start v.programs world.host line.canceled dir c.args (v.processEnv world c) = .ok start.task)
      (hShown : start.stage.shown = located dir c.render) :
    LaunchesIn v dir index c line (.ok start, { line with world := { world with input := input } })

variable {v : Invoker} {output : Output} {dir : String} {index : Nat} {isLast : Bool} {c : Command} {line line' : Line}

theorem launchesIn : v.LaunchesIn (v.directory line.world) index c line (v.launch output index isLast c line) := by
  unfold launch
  dsimp only
  split
  · next fault world hRedirect => exact .unopened hRedirect
  · next w world hRedirect =>
    split
    · next b hBuiltin => exact .builtin hRedirect hBuiltin rfl rfl rfl rfl
    · next hBuiltin =>
      split
      · next cause hStart => exact .unstarted hRedirect hBuiltin hStart
      · next task hStart => exact .process hRedirect hBuiltin hStart rfl

theorem LaunchesIn.shown {start : Launch} (h : v.LaunchesIn dir index c line (.ok start, line')) :
    start.stage.shown = located dir c.render := by
  cases h with
  | builtin hWired hBuiltin hTask hShown hOrder hProcess => exact hShown
  | process hWired hBuiltin hStart hShown => exact hShown

theorem LaunchesIn.builtin_ok {start : Launch} {b : Builtin} (h : v.LaunchesIn dir index c line (.ok start, line'))
    (hb : line.world.builtin? (c.args.headD "") = some b) :
    start.inOrder = b.inOrder ∧ start.stage.isProcess = false ∧
      ∃ hostInput, start.task = b.task ⟨c.args, c.env, dir, hostInput⟩ := by
  cases h with
  | builtin hWired hBuiltin hTask hShown hOrder hProcess =>
    obtain rfl := Option.some.inj (hBuiltin.symm.trans hb)
    exact ⟨hOrder, hProcess, _, hTask⟩
  | process hWired hBuiltin hStart hShown =>
    rw [hBuiltin] at hb
    cases hb

end Invoker

def Command.IsCd (c : Command) : Prop := c.args.headD "" = "cd"

/-- The directory after `c` has succeeded in the directory `dir`. -/
def Command.leads (base dir : String) (c : Command) : String :=
  match c.args with
  | [name, path] => if name = "cd" then Path.heading base dir path else dir
  | _ => dir

theorem Command.leads_cd {c : Command} {path : String} (h : c.args = ["cd", path]) (base dir : String) :
    c.leads base dir = Path.heading base dir path := by
  rw [leads, h]
  rfl

theorem Command.leads_of_not_isCd {c : Command} (h : ¬c.IsCd) (base dir : String) : c.leads base dir = dir := by
  unfold leads
  split
  · next name path hArgs =>
    have hName : name ≠ "cd" := by simpa [IsCd, hArgs] using h
    exact if_neg hName
  · rfl

/-- How a `cd` that was launched in the directory `dir` goes on, while the overlay sets a directory. -/
inductive Work.Moves {S : Type} (base dir : String) (c : Command) : Work S → String → Prop
  | asks {path : String} {desk : Desk} (hArgs : c.args = ["cd", path]) (hPath : Path.isAbsolute path = false)
      (hDir : dir = "") : Moves base dir c (.ready (.act .workDirectory (Builtin.cdFrom path)) desk) dir
  | looks {desk : Desk} : Moves base dir c (.ready (Builtin.cdTo (c.leads base dir)) desk) dir
  | sets {desk : Desk} :
    Moves base dir c (.ready (.act (.assign directoryVar (c.leads base dir)) fun _ => .done (.ok ())) desk) dir
  | moved {desk : Desk} : Moves base dir c (.ready (.done (.ok ())) desk) (c.leads base dir)
  | failed {fault : Fault} {desk : Desk} : Moves base dir c (.ready (.done (.error fault)) desk) dir

theorem Work.Moves.call?_eq {S : Type} {base dir d : String} {c : Command} {work : Work S}
    (h : work.Moves base dir c d) : work.call? = none := by
  cases h <;> rfl

theorem Work.moves_cd {S : Type} {c : Command} (hc : c.IsCd) (base dir : String) (env : Table) (hostInput : Bool)
    (desk : Desk) : Work.Moves (S := S) base dir c (.ready (Builtin.cd ⟨c.args, env, dir, hostInput⟩) desk) dir := by
  cases hArgs : c.args with
  | nil =>
    simp [Command.IsCd, hArgs] at hc
  | cons name rest =>
    obtain rfl : name = "cd" := by simpa [Command.IsCd, hArgs] using hc
    cases rest with
    | nil => exact .failed
    | cons path rest =>
      cases rest with
      | cons second rest => exact .failed
      | nil =>
        have hLeads : c.leads base dir = Path.heading base dir path := Command.leads_cd hArgs base dir
        by_cases hKnown : Path.isAbsolute path = true ∨ dir ≠ ""
        · rw [Builtin.cd_known "cd" path env dir hostInput hKnown base, ← hLeads]
          exact .looks
        · obtain ⟨hPath, hDir⟩ := not_or.mp hKnown
          have hPath : Path.isAbsolute path = false := Bool.eq_false_iff.mpr hPath
          obtain rfl : dir = "" := Decidable.not_not.mp hDir
          rw [Builtin.cd_unknown "cd" path env hostInput hPath]
          exact .asks hArgs hPath rfl

/-- The directory is that of the `cd`, and in the end the one to which it leads just if it succeeded. -/
def Turn.Moves {S : Type} (id : Nat) (ground : (String → Option Builtin) × String) (dir : String) (c : Command) :
    Turn S × Line → Prop
  | (.on work, line) => ∃ d, work.Moves ground.2 dir c d ∧ line.world.footing id = (some d, ground)
  | (.ended result, line) =>
    line.world.footing id = (some (if result = none then c.leads ground.2 dir else dir), ground)

section Turns

variable {C : Calls} {mayCall : Prop} {st : Stage} {work : Work C.State} {line : Line} {x : Turn C.State × Line}

theorem Acts.moves (h : Acts C mayCall st (.on work, line) x) {ground : (String → Option Builtin) × String}
    {dir d : String} {c : Command} (hMoves : work.Moves ground.2 dir c d) (hProcess : st.isProcess = false)
    (hFooting : line.world.footing st.overlay = (some d, ground)) : Turn.Moves st.overlay ground dir c x := by
  have hKill : ∀ {p : Prop}, st.isProcess = true → p := by
    intro p hIs
    rw [hProcess] at hIs
    cases hIs
  cases hMoves with
  | @asks path desk hArgs hPath hDir =>
    cases h with
    | kill hIs => exact hKill hIs
    | act nested hInvokes =>
      have hBase : line.world.host.workDirectory = ground.2 := congrArg (fun f => f.2.2) hFooting
      have hLeads : c.leads ground.2 dir = Path.join ground.2 path := by
        rw [Command.leads_cd hArgs, hDir]
        simp [Path.heading, hPath]
      have hAfter : (st.after (S := C.State) (Builtin.cdFrom path) (st.perform nested desk line .workDirectory)) =
          (.on (.ready (Builtin.cdFrom path line.world.host.currentDirectory) desk), line) := rfl
      rw [hAfter]
      refine ⟨dir, ?_, hFooting⟩
      unfold Host.currentDirectory
      split
      · have hTo : Builtin.cdFrom path (.ok line.world.host.workDirectory) = Builtin.cdTo (c.leads ground.2 dir) := by
          rw [hLeads, ← hBase]
          rfl
        rw [hTo]
        exact .looks
      · exact .failed
  | @looks desk =>
    rw [Builtin.cdTo_eq] at h
    cases h with
    | kill hIs => exact hKill hIs
    | act nested hInvokes =>
      rw [st.perform_isDirectory]
      refine ⟨dir, ?_, hFooting⟩
      cases (line.world.serve .shell (.isDirectory (c.leads ground.2 dir))).1 with
      | ok feed => exact .sets
      | error fault => exact .failed
  | sets =>
    cases h with
    | kill hIs => exact hKill hIs
    | act nested hInvokes => exact ⟨_, .moved, World.footing_move hFooting _⟩
  | moved =>
    cases h with
    | kill hIs => exact hKill hIs
    | finish => exact (st.closed_footing (C := C) none _ line).trans hFooting
  | failed =>
    cases h with
    | kill hIs => exact hKill hIs
    | finish => exact (st.closed_footing (C := C) (some _) _ line).trans hFooting

theorem Acts.looks {target : String} {feed : Feed} (nested : Nested) (desk : Desk)
    (hFound : (line.world.serve .shell (.isDirectory target)).1 = .ok feed) :
    Acts C mayCall st (.on (.ready (Builtin.cdTo target) desk), line)
      (.on (.ready (.act (.assign directoryVar target) fun _ => .done (.ok ())) desk), line) := by
  have hPerform := st.perform_isDirectory nested desk line target
  rw [hFound] at hPerform
  rw [Builtin.cdTo_eq]
  have hAct := fun next => @Acts.act C mayCall st (.files .shell (.isDirectory target)) next desk line nested rfl
  rw [hPerform] at hAct
  exact hAct _

/-- The result of a stage that failed is shown as the stage. -/
def Failure.Shows (shown : String) (result : Option Failure) : Prop :=
  ∃ (log : Bytes) (fault : Option Fault), result = fault.map (Failure.ofFault shown log)

theorem Acts.shows {result : Option Failure} {line' : Line}
    (h : Acts C mayCall st (.on work, line) (.ended result, line')) : Failure.Shows st.shown result := by
  have hAfter : ∀ {action : Action} (next : action.Answer → Program (Except Fault Unit)) (reply : Reply action.Answer),
      (st.after (S := C.State) next reply).1 = .ended result → Failure.Shows st.shown result := by
    intro action next reply hEnded
    cases reply with
    | done answered line =>
      obtain ⟨desk, answer⟩ := answered
      cases answer with
      | some answer => cases hEnded
      | none =>
        cases hEnded
        exact ⟨desk.log, _, rfl⟩
    | wait why line resume => cases hEnded
  generalize hx : ((.ended result, line') : Turn C.State × Line) = x at h
  have hEnded : x.1 = .ended result := by rw [← hx]
  cases h with
  | act nested hInvokes => exact hAfter _ _ hEnded
  | resume signal hStop => exact hAfter _ _ hEnded
  | @kill program desk _ hProcess hCanceled =>
    cases hEnded
    exact ⟨desk.log, _, rfl⟩
  | @finish ended desk _ =>
    cases hEnded
    exact ⟨desk.log, _, rfl⟩
  | call hCall => cases hEnded
  | inner hStep => cases hEnded
  | answer hResult => cases hEnded

end Turns

end Pipework
