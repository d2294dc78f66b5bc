import Pipework.Proofs.Files.Address
import Pipework.Proofs.Stage.Lone

/-!
# What `cat` shows

A `cat` that is alone in its pipeline does not wait, whether it is given the name of a file or has the file as its
input. Its output is what the file holds.
-/

namespace Pipework

def Command.cat (name : String) : Command := ⟨["cat", name], [], []⟩

def Command.catInput (name : String) : Command := ⟨["cat"], [], [⟨0, .file name, false⟩]⟩

namespace Builtin

theorem cat_eq {name : String} (hName : name ≠ "-") (env : Table) (dir : String) (hostInput : Bool) :
    ∃ next : Except Fault Feed → Program (Except Fault Unit),
      cat ⟨["cat", name], env, dir, hostInput⟩ =
        Program.act (.files .shell (.read (Path.resolve dir name))) next ∧
      ∀ data, next (.ok (.ofBytes data)) = Task.pour data := by
  have hCat : cat ⟨["cat", name], env, dir, hostInput⟩ =
      (do catFile ⟨["cat", name], env, dir, hostInput⟩ name; pure () : Task Unit) := rfl
  rw [hCat, bind_pure_unit]
  unfold catFile
  rw [if_neg hName]
  exact ⟨_, rfl, fun data => rfl⟩

end Builtin

namespace Stage

variable {st : Stage} {desk : Desk} {line : Line} {nested : Nested}

section Capture

variable (hOut : st.out = .output) (hLast : st.isLast = true) (hOutput : st.output = .capture) (data : Bytes)

include hOut hLast hOutput

theorem deliver_capture :
    st.deliver st.out data desk line =
      .done (desk, some (.full data)) { line with captured := line.captured ++ data } := by
  simp [deliver, hOut, hLast, hOutput]

theorem run_pour :
    st.run nested (Task.pour data) desk line =
      .done () (st.close none desk { line with captured := line.captured ++ data }) := by
  unfold Task.pour
  split
  · next hEmpty =>
    rw [hEmpty, List.append_nil]
    rfl
  · have hWrite : Task.write .out data = Program.act (.write .out data) Task.check := rfl
    have hPerform : st.perform nested desk line (.write .out data) =
        .done (desk, some none) { line with captured := line.captured ++ data } :=
      congrArg (Reply.map Delivery.fault) (deliver_capture hOut hLast hOutput data)
    rw [hWrite, run_answered hPerform]
    rfl

theorem run_relay (hSource : st.source = .feed) (hFeed : desk.feed = .ofBytes data) :
    st.run nested Task.relay desk line =
      .done () (st.close none { desk with feed := .ofBytes [] } { line with captured := line.captured ++ data }) := by
  have hScan : st.scan desk line = .done ({ desk with feed := .ofBytes [] }, some (data, none)) line := by
    simp [scan, read, hSource, hFeed]
  have hPour : ∀ desk, st.pour data desk line =
      .done (desk, some (.full data)) { line with captured := line.captured ++ data } := by
    intro desk
    unfold pour
    split
    · next hEmpty => rw [hEmpty, List.append_nil]
    · exact deliver_capture hOut hLast hOutput data
  have hPerform : st.perform nested desk line (.relay Filter.all) =
      .done ({ desk with feed := .ofBytes [] }, some (data, none)) { line with captured := line.captured ++ data } := by
    have hFinite : (st.inputFeed desk line).cycle = [] := by simp [inputFeed, hSource, hFeed, Feed.ofBytes]
    have hNotHost : st.source ≠ .host := by simp [hSource]
    change st.relay Filter.all desk line = _
    simp [relay, hFinite, hScan, hPour, hNotHost, Delivery.full]
  have hRelay : Task.relay = Program.act (.relay Filter.all) fun answer => Task.check answer.2 := rfl
  rw [hRelay, run_answered hPerform]
  rfl

end Capture

end Stage

namespace Invoker

/-- The command, first and last in its pipeline, is launched on the line, writes `data` and ends. -/
def Says (v : Invoker) (nested : Nested) (c : Command) (line : Line) (data : Bytes) : Prop :=
  ∃ start desk, v.launch .capture 0 true c line = (.ok start, line) ∧
    start.run nested line = .done () (start.stage.close none desk { line with captured := line.captured ++ data })

variable {v : Invoker} {nested : Nested} {p : Pipeline} {c : Command} {phase : Phase} {line : Line} {t : FileTree}
  {name : String} {data : Bytes} {x : Bool}

theorem Says.runPipeline (hp : p.commands = [c])
    (h : v.Says nested c (v.openLine p { phase with world := v.traced p phase.world }) data) :
    ∃ phase', v.runPipeline nested .capture p phase = .done (none, data) phase' := by
  obtain ⟨start, desk, hLaunch, hRun⟩ := h
  have hDone := runPipeline_lone hp hLaunch hRun
  have hLast := (v.stage_launch .capture 0 true c _ (by rw [hLaunch])).2.1
  have hFault : ∀ pipefail, ((Board.opened pipefail).complete start.stage.isLast none).verdict.map Failure.toFault =
      none := by
    rw [hLast]
    exact fun pipefail => congrArg _ (Board.verdict_lone pipefail none)
  exact ⟨_, hDone.trans (congrArg (Run.done · _) (Prod.ext (hFault _) rfl))⟩

section Cat

variable (hBuiltin : line.world.builtin? "cat" = some (.concurrent Builtin.cat)) (hShelf : line.shelf = (true, t))
  (hFile : t.find? (Memory.place (Path.resolve (v.directory line.world) name)) = some (.file data x))

include hBuiltin hShelf hFile

theorem says_cat (hName : name ≠ "-") : v.Says nested (.cat name) line data := by
  let start : Launch := v.builtinLaunch .capture 0 true (.cat name) line (.concurrent Builtin.cat)
  refine ⟨start, start.desk, v.launch_builtin .capture 0 true hBuiltin rfl, ?_⟩
  obtain ⟨next, hCat, hNext⟩ := Builtin.cat_eq hName [] (v.directory line.world) true
  let read : Action := .files .shell (.read (Path.resolve (v.directory line.world) name))
  have hRead :
      start.stage.perform nested start.desk line read = .done (start.desk, some (.ok (.ofBytes data))) line := by
    simp only [read, Stage.perform, World.serve_read hShelf hFile]
  calc start.run nested line
    _ = start.stage.run nested (.act read next) start.desk line :=
      congrArg (start.stage.run nested · start.desk line) hCat
    _ = start.stage.run nested (Task.pour data) start.desk line := by rw [Stage.run_answered hRead, hNext]
    _ = _ := Stage.run_pour rfl rfl rfl data

theorem says_catInput : v.Says nested (.catInput name) line data := by
  let path := Path.resolve (v.directory line.world) name
  have hHeld : line.world.isHeld .shell = true := (World.shelf_eq_iff.mp hShelf).1
  have hRedirect : (Wiring.initial .host).redirectAll .shell (v.directory line.world) [⟨0, .file name, false⟩]
      line.world = (.ok ⟨.feed, .ofBytes data, some path, .output, .errors, [], [⟨.shell, path⟩]⟩, line.world) := by
    simp [Wiring.redirectAll, Wiring.redirect, World.serve_read hShelf hFile, Except.map, Wiring.refresh, hHeld,
      Wiring.initial, path]
  refine ⟨_, ⟨.ofBytes [], [], []⟩, launch_of_redirectAll hBuiltin hRedirect, ?_⟩
  exact Stage.run_relay rfl rfl rfl data rfl rfl

end Cat

end Invoker

namespace World

/-- `cat name` and `cat < name` both output `data`, wherever and however the place `p` is named. -/
def Shows (w : World) (p : Place) (data : Bytes) : Prop :=
  ∀ (v : Invoker) (nested : Nested) (pl : Pipeline) (phase : Invoker.Phase) (name : String),
    phase.world.shelf = w.shelf → phase.world.builtin? "cat" = some (.concurrent Builtin.cat) →
    Memory.place (Path.resolve (v.directory phase.world) name) = p →
    (name ≠ "-" ∧ pl.commands = [.cat name] ∨ pl.commands = [.catInput name]) →
    ∃ phase', v.runPipeline nested .capture pl phase = .done (none, data) phase'

theorem shows_of_file {p : Place} {w : World} {t : FileTree} {data : Bytes} {x : Bool} (hShelf : w.shelf = (true, t))
    (hFile : t.find? p = some (.file data x)) : w.Shows p data := by
  intro v nested pl phase name hSame hBuiltin hPlace hCommands
  obtain ⟨trace, hTraced⟩ := v.traced_eq pl phase.world
  let line : Line := v.openLine pl { phase with world := { phase.world with trace := trace } }
  have hHere : t.find? (Memory.place (Path.resolve (v.directory line.world) name)) = some (.file data x) := by
    rw [← hFile, ← hPlace]
    rfl
  have hSays {c : Command} (hp : pl.commands = [c]) (h : v.Says nested c line data) :
      ∃ phase', v.runPipeline nested .capture pl phase = .done (none, data) phase' := by
    refine Invoker.Says.runPipeline hp ?_
    rw [hTraced]
    exact h
  have hCat : line.world.builtin? "cat" = some (.concurrent Builtin.cat) := hBuiltin
  have hOn : line.shelf = (true, t) := hSame.trans hShelf
  rcases hCommands with ⟨hName, hp⟩ | hp
  · exact hSays hp (Invoker.says_cat hCat hOn hHere hName)
  · exact hSays hp (Invoker.says_catInput hCat hOn hHere)

end World

end Pipework
