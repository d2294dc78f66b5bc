import Pipework.Proofs.Directory.Path
import Pipework.Proofs.Schedule.Basic
import Pipework.Proofs.Script.Steps
import Pipework.Proofs.Stage.Lone

/-!
# Changes of the directory

A `cd` finds out where it leads by the text of the path alone, and then asks whether there is a directory. If
so, it sets one variable; if not, it fails and leaves everything as it was. Since the text decides, two changes one
after the other come to the same as one along the joined path.
-/

namespace Pipework

namespace Path

theorem memoryPush_of_isName {part : String} (h : IsName part) (rooted : Bool) (done : List String) :
    Memory.push rooted done part = part :: done := by
  unfold Memory.push
  rw [if_neg (by simp [h.ne_empty, h.ne_dot]), if_neg h.ne_dots]

theorem place_rooted {names : List String} (h : ∀ name ∈ names, IsName name) : Memory.place (rooted names) = names := by
  have hFold : ∀ (ns done : List String), (∀ name ∈ ns, IsName name) →
      ns.foldl (Memory.push true) done = ns.reverse ++ done := by
    intro ns
    induction ns with
    | nil => exact fun _ _ => rfl
    | cons n ns ih =>
      intro done hNames
      obtain ⟨hFirst, hRest⟩ := List.forall_mem_cons.mp hNames
      rw [List.foldl_cons, memoryPush_of_isName hFirst, ih _ hRest]
      simp
  have hSkip : ∀ done, Memory.push true done "" = done := fun done => rfl
  rw [Memory.place, isAbsolute_rooted, parts_rooted h, List.foldl_cons, hSkip]
  split
  · next hNil =>
    rw [hNil]
    rfl
  · rw [hFold names [] h]
    simp

end Path

namespace Host

theorem walk_names {t : FileTree} {p q : Place} {names : List String} (h : ∀ name ∈ names, Path.IsName name)
    (hWalk : walk t p names = .ok q) : q = p ++ names := by
  induction names generalizing p with
  | nil =>
    cases hWalk
    exact (List.append_nil _).symm
  | cons name names ih =>
    obtain ⟨hName, hNames⟩ := List.forall_mem_cons.mp h
    unfold walk at hWalk
    split at hWalk
    · rw [if_neg (by simp [hName.ne_empty, hName.ne_dot]), if_neg hName.ne_dots] at hWalk
      split at hWalk
      · cases hWalk
      · rw [ih hNames hWalk]
        simp
    · cases hWalk

theorem locate_rooted {h : Host} {names : List String} {q : Place} (hNames : ∀ name ∈ names, Path.IsName name)
    (hLocate : h.locate (Path.rooted names) = .ok q) : q = names := by
  unfold locate at hLocate
  split at hLocate
  · cases hLocate
  · split at hLocate
    · cases hLocate
    · split at hLocate
      · cases hLocate
      · rw [Path.isAbsolute_rooted, Path.parts_rooted hNames] at hLocate
        have hRoot : ∀ ps, walk h.tree [] ("" :: ps) = walk h.tree [] ps := fun _ => rfl
        dsimp only [if_true] at hLocate
        rw [if_pos rfl, hRoot] at hLocate
        split at hLocate
        · next hNil =>
          rw [hRoot] at hLocate
          cases hLocate
          exact hNil.symm
        · exact walk_names hNames hLocate

theorem answer_isDirectory {h : Host} {path : String} {feed : Feed} {tree : FileTree}
    (hAnswer : h.answer (.isDirectory path) = .ok (feed, tree)) :
    tree = h.tree ∧ ∃ p, h.locate path = .ok p ∧ h.tree.isDirectory p = true := by
  obtain ⟨node, hNode, hReply⟩ := bind_eq_ok hAnswer
  obtain ⟨p, hLocate, hFound⟩ := bind_eq_ok hNode
  refine ⟨?_, p, hLocate, ?_⟩
  · cases node <;> cases hReply
    rfl
  · unfold FileTree.isDirectory
    split at hFound
    · next found hFind =>
      cases hFound
      rw [hFind]
      cases node <;> cases hReply
      rfl
    · cases hFound

end Host

namespace World

def files (w : World) : FileTree := if w.inMemory then w.memory else w.host.tree

theorem serve_isDirectory (w : World) (path : String) : (w.serve .shell (.isDirectory path)).2 = w := by
  unfold serve
  dsimp only
  split
  · split
    · next feed memory hServe =>
      have hSame : memory = w.memory := by
        unfold serveMemory at hServe
        dsimp only at hServe
        split at hServe
        · cases hServe
          rfl
        · cases hServe
      rw [hSame]
    · rfl
  · unfold Host.serveBuiltin
    dsimp only
    split
    · rfl
    · split
      · next feed tree hMade =>
        have hTree : tree = w.host.tree := (Host.answer_isDirectory hMade).1
        rw [hTree]
      · rfl

theorem serve_congr {w w' : World} (hMemory : w'.inMemory = w.inMemory ∧ w'.memory = w.memory)
    (hHost : w'.host = w.host) (storage : Storage) (request : FileRequest) :
    (w'.serve storage request).1 = (w.serve storage request).1 := by
  unfold serve
  rw [hMemory.1, hMemory.2, hHost]
  cases storage with
  | host => rfl
  | shell =>
    dsimp only
    split
    · split <;> rfl
    · rfl

theorem isDirectory_of_serve {w : World} {names : List String} (hNames : ∀ name ∈ names, Path.IsName name) {feed : Feed}
    (h : (w.serve .shell (.isDirectory (Path.rooted names))).1 = .ok feed) : w.files.isDirectory names = true := by
  unfold serve at h
  unfold files
  dsimp only at h
  split at h
  · next hMemory =>
    rw [if_pos hMemory]
    have hPlace : Memory.isDirectory w.memory (Path.rooted names) = w.memory.isDirectory names :=
      congrArg w.memory.isDirectory (Path.place_rooted hNames)
    unfold serveMemory at h
    dsimp only at h
    rw [← hPlace]
    by_cases hIs : Memory.isDirectory w.memory (Path.rooted names) = true
    · exact hIs
    · rw [if_neg hIs] at h
      cases h
  · next hMemory =>
    rw [if_neg hMemory]
    have hAbsolute : w.host.absolute (Path.rooted names) = Path.rooted names := by
      rw [Host.absolute, Path.isAbsolute_rooted, if_pos rfl, Path.clean_of_isAbsolute (Path.isAbsolute_rooted names),
        Path.enter_rooted hNames]
    unfold Host.serveBuiltin at h
    dsimp only [Host.subject, Host.about] at h
    rw [hAbsolute] at h
    split at h
    · cases h
    · cases hAnswer : w.host.answerMaking (.isDirectory (Path.rooted names)) with
      | error fault =>
        rw [hAnswer] at h
        cases h
      | ok reply =>
        obtain ⟨-, p, hLocate, hIs⟩ := Host.answer_isDirectory hAnswer
        rwa [Host.locate_rooted hNames hLocate] at hIs

end World

namespace Builtin

def cdTo (target : String) : Task Unit := do
  match ← Task.perform (.files .shell (.isDirectory target)) with
  | .ok _ => Task.perform (.assign directoryVar target)
  | .error _ => throw (.about ("cd " ++ target) .noDirectory)

/-- What is left of a `cd` that has asked for the directory of the host. -/
def cdFrom (path : String) : Except Fault String → Task Unit
  | .ok base => cdTo (Path.join base path)
  | .error fault => throw (.about "cd" fault)

theorem cdTo_eq (target : String) :
    cdTo target = Program.act (.files .shell (.isDirectory target)) fun reply =>
      match reply with
      | .ok _ => Program.act (.assign directoryVar target) fun _ => .done (.ok ())
      | .error _ => .done (.error (.about ("cd " ++ target) .noDirectory)) := by
  refine congrArg (Program.act _) ?_
  funext reply
  cases reply <;> rfl

variable (name path : String) (env : Table) (dir : String) (hostInput : Bool)

theorem cd_known (h : Path.isAbsolute path = true ∨ dir ≠ "") (base : String) :
    cd ⟨[name, path], env, dir, hostInput⟩ = cdTo (Path.heading base dir path) := by
  have hCd : cd ⟨[name, path], env, dir, hostInput⟩ =
      (do cdTo (← destination ⟨[name, path], env, dir, hostInput⟩ path) : Task Unit) := rfl
  rw [hCd, Path.heading, destination]
  split
  · rfl
  · next hRelative =>
    have hSet : dir ≠ "" := h.resolve_left hRelative
    rw [if_pos hSet, if_pos hSet]
    rfl

theorem cd_unknown (hPath : Path.isAbsolute path = false) :
    cd ⟨[name, path], env, "", hostInput⟩ = Program.act .workDirectory (cdFrom path) := by
  have hCd : cd ⟨[name, path], env, "", hostInput⟩ =
      (do cdTo (← destination ⟨[name, path], env, "", hostInput⟩ path) : Task Unit) := rfl
  rw [hCd, destination, if_neg (by simp [hPath])]
  refine congrArg (Program.act .workDirectory) ?_
  funext reply
  cases reply <;> rfl

end Builtin

/-- The line after the variable `key` of an overlay has been set. -/
def Line.setting (overlay : Nat) (key value : String) (l : Line) : Line :=
  let (scope, o) := l.scope.assign (l.world.overlay overlay) key (some value)
  { l with world := l.world.setOverlay overlay o, scope := scope }

def World.changeTo (w : World) (target : String) : Except Fault String :=
  match (w.serve .shell (.isDirectory target)).1 with
  | .ok _ => .ok target
  | .error _ => .error (.about ("cd " ++ target) .noDirectory)

/-- Where `cd args` leads from the directory `dir`, if it leads to a directory, or else why it does not. -/
def World.change (w : World) (dir : String) (args : List String) : Except Fault String :=
  match args with
  | [path] =>
    let target := w.changeTo (Path.heading w.host.workDirectory dir path)
    if Path.isAbsolute path || dir ≠ "" then target
    else match w.host.currentDirectory with
      | .ok _ => target
      | .error fault => .error (.about "cd" fault)
  | [] => .error (.plain "cd: missing directory")
  | _ => .error (.plain "cd: too many arguments")

theorem World.change_congr {w w' : World} (hMemory : w'.inMemory = w.inMemory ∧ w'.memory = w.memory)
    (hHost : w'.host = w.host) (dir : String) (args : List String) : w'.change dir args = w.change dir args := by
  have hTo : ∀ target, w'.changeTo target = w.changeTo target := by
    intro target
    rw [changeTo, serve_congr hMemory hHost, changeTo]
  unfold change
  split
  · rw [hTo, hHost]
  · rfl
  · rfl

/-- There is a directory where `path` leads from the directory `dir`, which has to be known for that. -/
structure World.Reaches (w : World) (dir path : String) : Prop where
  known : Path.isAbsolute path = true ∨ dir ≠ "" ∨ ∃ base, w.host.currentDirectory = .ok base
  found : ∃ feed, (w.serve .shell (.isDirectory (Path.heading w.host.workDirectory dir path))).1 = .ok feed

theorem World.changeTo_eq_ok {w : World} {target dir : String} :
    w.changeTo target = .ok dir ↔ dir = target ∧ ∃ feed, (w.serve .shell (.isDirectory target)).1 = .ok feed := by
  unfold changeTo
  cases (w.serve .shell (.isDirectory target)).1 with
  | ok feed => simp [eq_comm]
  | error fault => simp

theorem World.change_eq_ok {w : World} {dir target : String} {args : List String} :
    w.change dir args = .ok target ↔
      ∃ path, args = [path] ∧ target = Path.heading w.host.workDirectory dir path ∧ w.Reaches dir path := by
  constructor
  · intro h
    unfold change at h
    split at h
    · next path =>
      dsimp only at h
      split at h
      · next hKnown =>
        obtain ⟨hTarget, hFound⟩ := changeTo_eq_ok.mp h
        have hKnown : Path.isAbsolute path = true ∨ dir ≠ "" := by simpa using hKnown
        exact ⟨path, rfl, hTarget, hKnown.imp_right .inl, hFound⟩
      · split at h
        · next base hBase =>
          obtain ⟨hTarget, hFound⟩ := changeTo_eq_ok.mp h
          exact ⟨path, rfl, hTarget, .inr (.inr ⟨base, hBase⟩), hFound⟩
        · cases h
    · cases h
    · cases h
  · rintro ⟨path, rfl, rfl, hKnown, hFound⟩
    have hTo := changeTo_eq_ok.mpr ⟨rfl, hFound⟩
    unfold change
    dsimp only
    split
    · exact hTo
    · next hUnknown =>
      have hUnknown : Path.isAbsolute path = false ∧ dir = "" := by simpa using hUnknown
      obtain ⟨base, hBase⟩ : ∃ base, w.host.currentDirectory = .ok base := by simpa [hUnknown] using hKnown
      rw [hBase]
      exact hTo

theorem World.change_change {w : World} {dir middle last first second : String}
    (hBase : Path.isAbsolute w.host.workDirectory = true) (hDir : dir = "" ∨ Path.isAbsolute dir = true)
    (hFirst : first ≠ "") (hSecond : Path.isAbsolute second = false) (h : w.change dir [first] = .ok middle)
    (h' : w.change middle [second] = .ok last) : w.change dir [first ++ "/" ++ second] = .ok last := by
  obtain ⟨_, hPath, rfl, hReaches⟩ := change_eq_ok.mp h
  cases hPath
  obtain ⟨_, hPath, rfl, hReaches'⟩ := change_eq_ok.mp h'
  cases hPath
  have hTogether := Path.heading_heading hBase hDir hFirst hSecond
  refine change_eq_ok.mpr ⟨_, rfl, hTogether, ?_, ?_⟩
  · rw [Path.isAbsolute_slash hFirst]
    exact hReaches.known
  · rw [← hTogether]
    exact hReaches'.found

/-- The overlay `id` now sets the directory of the place `names`, at which there is one; nothing else is set
otherwise than before. -/
structure World.Moved (id : Nat) (names : List String) (w w' : World) : Prop where
  isName : ∀ name ∈ names, Path.IsName name
  directory : (w'.overlay id).find? directoryVar = some (Path.rooted names)
  isDirectory : w'.files.isDirectory names = true
  vars : ∀ key, key ≠ directoryVar → (w'.overlay id).find? key = (w.overlay id).find? key
  elsewhere : ∀ other, other ≠ id → w'.overlays[other]? = w.overlays[other]?

namespace Stage

variable (st : Stage) (nested : Nested) (desk : Desk) (line : Line)

/-- How a stage ends that has changed the directory as told, or has failed to. -/
def changed : Except Fault String → Line
  | .ok dir => st.close none desk (line.setting st.overlay directoryVar dir)
  | .error fault => st.close (some fault) desk line

theorem perform_isDirectory (target : String) :
    st.perform nested desk line (.files .shell (.isDirectory target)) =
      .done (desk, some (line.world.serve .shell (.isDirectory target)).1) line := by
  have hWorld := line.world.serve_isDirectory target
  simp only [perform, hWorld]

theorem run_cdTo (target : String) :
    st.run nested (Builtin.cdTo target) desk line = .done () (st.changed desk line (line.world.changeTo target)) := by
  have hSet : st.perform nested desk line (.assign directoryVar target) =
      .done (desk, some ()) (line.setting st.overlay directoryVar target) := rfl
  rw [Builtin.cdTo_eq, run_answered (st.perform_isDirectory nested desk line target), World.changeTo]
  cases (line.world.serve .shell (.isDirectory target)).1 with
  | ok feed =>
    dsimp only
    rw [run_answered hSet]
    rfl
  | error fault => rfl

theorem run_cd (name : String) (args : List String) (env : Table) (dir : String) (hostInput : Bool) :
    st.run nested (Builtin.cd ⟨name :: args, env, dir, hostInput⟩) desk line =
      .done () (st.changed desk line (line.world.change dir args)) := by
  cases args with
  | nil => rfl
  | cons path more =>
    cases more with
    | cons second more => rfl
    | nil =>
      unfold World.change
      by_cases hKnown : Path.isAbsolute path = true ∨ dir ≠ ""
      · rw [Builtin.cd_known name path env dir hostInput hKnown line.world.host.workDirectory, run_cdTo]
        have hTest : (Path.isAbsolute path || decide (dir ≠ "")) = true := by simpa using hKnown
        dsimp only
        rw [if_pos hTest]
      · obtain ⟨hPath, hDir⟩ := not_or.mp hKnown
        have hPath : Path.isAbsolute path = false := Bool.eq_false_iff.mpr hPath
        obtain rfl : dir = "" := Decidable.not_not.mp hDir
        have hAsk : st.perform nested desk line .workDirectory =
            .done (desk, some line.world.host.currentDirectory) line := rfl
        have hHeading : Path.heading line.world.host.workDirectory "" path =
            Path.join line.world.host.workDirectory path := by
          simp [Path.heading, hPath]
        rw [Builtin.cd_unknown name path env hostInput hPath, run_answered hAsk]
        dsimp only
        rw [hHeading, hPath]
        unfold Host.currentDirectory
        split
        · exact st.run_cdTo nested desk line _
        · rfl

end Stage

def Command.cd (args : List String) : Command := ⟨"cd" :: args, [], []⟩

/-- The statement is `cd args` and nothing else, wherever it stands. -/
structure Statement.IsCd (s : Statement) (args : List String) : Prop where
  alone : s.fallbacks = []
  commands : s.first.commands = [.cd args]
  heeded : s.first.ignore = false

def Statement.cd (path : String) : Statement := ⟨⟨[.cd [path]], false, "", 1⟩, []⟩

namespace Invoker

/-- What the pipeline `cd args` makes of the phase `phase`, and whether it fails. -/
inductive Changes (v : Invoker) (args : List String) (phase : Phase) : Option Fault → Phase → Prop
  | moved {dir : String} {phase' : Phase} {trace : Bytes}
      (hChange : phase.world.change (v.directory phase.world) args = .ok dir)
      (hWorld : phase'.world = { phase.world.setOverlay v.overlay
        (Table.assign directoryVar (some dir) (phase.world.overlay v.overlay)) with trace := trace }) :
    Changes v args phase none phase'
  | failed {cause fault : Fault} {phase' : Phase} {trace : Bytes}
      (hChange : phase.world.change (v.directory phase.world) args = .error cause)
      (hWorld : phase'.world = { phase.world with trace := trace }) : Changes v args phase (some fault) phase'

variable {v : Invoker} {args : List String} {phase : Phase}

section Pipeline

variable (nested : Nested) (hCd : phase.world.builtin? "cd" = some ⟨true, Builtin.cd⟩)

include hCd

theorem runPipeline_cd {p : Pipeline} (hp : p.commands = [.cd args]) :
    ∃ fault phase', v.Changes args phase fault phase' ∧
      ∀ output, v.runPipeline nested output p phase = .done (fault, []) phase' := by
  obtain ⟨trace, hTraced⟩ := v.traced_eq p phase.world
  let phase₁ : Phase := { phase with world := { phase.world with trace := trace } }
  let line := v.openLine p phase₁
  let start (output : Output) := v.builtinLaunch output 0 true (.cd args) line ⟨true, Builtin.cd⟩
  let change := phase.world.change (v.directory phase.world) args
  have hSame : line.world.change (v.directory line.world) args = change :=
    @World.change_congr phase.world line.world ⟨rfl, rfl⟩ rfl (v.directory phase.world) args
  let line' (output : Output) := (start output).stage.changed ⟨.nothing, [], []⟩ line change
  have hRun : ∀ output, v.runPipeline nested output p phase =
      .done ((line' output).board.verdict.map Failure.toFault, (line' output).captured)
        (closeLine phase₁ (line' output)) := by
    intro output
    have hLaunch : v.launch output 0 true (.cd args) (v.openLine p { phase with world := v.traced p phase.world }) =
        (.ok (start output), line) := by
      rw [hTraced]
      exact v.launch_builtin output 0 true hCd rfl
    have hEnd : (start output).run nested line = .done () (line' output) := by
      have hCdRun := (start output).stage.run_cd nested ⟨.nothing, [], []⟩ line "cd" args [] (v.directory line.world)
        true
      rw [hSame] at hCdRun
      exact hCdRun
    have hLone := runPipeline_lone hp hLaunch hEnd
    rw [hTraced] at hLone
    exact hLone
  have hVerdict := Board.verdict_lone (v.flag phase₁.world pipefailVar)
  cases hChange : change with
  | ok dir =>
    refine ⟨none, closeLine phase₁ (line.setting v.overlay directoryVar dir), .moved hChange rfl, ?_⟩
    intro output
    have hLine : line' output = (start output).stage.close none ⟨.nothing, [], []⟩
        (line.setting v.overlay directoryVar dir) :=
      congrArg ((start output).stage.changed ⟨.nothing, [], []⟩ line) hChange
    have hFault : (line' output).board.verdict = none := by
      rw [hLine]
      exact hVerdict none
    rw [hRun, hFault, hLine]
    rfl
  | error cause =>
    let failure : Failure := .ofFault (located (v.directory phase.world) (Command.cd args).render) [] cause
    refine ⟨some failure.toFault, closeLine phase₁ line, .failed hChange rfl, ?_⟩
    intro output
    have hLine : line' output = (start output).stage.close (some cause) ⟨.nothing, [], []⟩ line :=
      congrArg ((start output).stage.changed ⟨.nothing, [], []⟩ line) hChange
    have hFault : (line' output).board.verdict = some failure := by
      rw [hLine]
      exact hVerdict (some failure)
    rw [hRun, hFault, hLine]
    rfl

theorem runStatements_cd (m : Mode) (text : Bytes) (rest : List Statement) {s : Statement} (hs : s.IsCd args) :
    ∃ fault phase', v.Changes args phase fault phase' ∧
      v.runStatements nested m text (s :: rest) phase =
        match fault with
        | none => v.runStatements nested m [] rest phase'
        | some fault => .done (.error fault) phase' := by
  have hAlone : s.alternatives = [s.first] := congrArg (s.first :: ·) hs.alone
  obtain ⟨fault, phase', hChanges, hRun⟩ := runPipeline_cd (v := v) nested hCd hs.commands
  refine ⟨fault, phase', hChanges, ?_⟩
  cases fault with
  | none => exact runStatements_lone hAlone hRun
  | some fault => exact runStatements_lone_failed hAlone hs.heeded hRun

end Pipeline

section Changes

variable {phase' : Phase} (hOverlay : v.overlay < phase.world.overlays.length)

theorem Changes.eq_none_iff {fault : Option Fault} (h : v.Changes args phase fault phase') :
    fault = none ↔ ∃ path, args = [path] ∧ phase.world.Reaches (v.directory phase.world) path := by
  have hReaches : ∀ target, phase.world.change (v.directory phase.world) args = .ok target →
      ∃ path, args = [path] ∧ phase.world.Reaches (v.directory phase.world) path := by
    intro target hTarget
    obtain ⟨path, hPath, -, hThere⟩ := World.change_eq_ok.mp hTarget
    exact ⟨path, hPath, hThere⟩
  cases h with
  | moved hChange _ => exact iff_of_true rfl (hReaches _ hChange)
  | failed hChange _ =>
    refine iff_of_false (by simp) ?_
    rintro ⟨path, hPath, hThere⟩
    rw [World.change_eq_ok.mpr ⟨path, hPath, rfl, hThere⟩] at hChange
    cases hChange

theorem Changes.frame {fault : Option Fault} (h : v.Changes args phase fault phase') :
    phase'.world.builtin? = phase.world.builtin? ∧ phase'.world.files = phase.world.files ∧
      (phase'.world.inMemory = phase.world.inMemory ∧ phase'.world.memory = phase.world.memory) ∧
      phase'.world.host = phase.world.host ∧ phase'.world.overlays.length = phase.world.overlays.length := by
  cases h with
  | moved _ hWorld =>
    rw [hWorld]
    exact ⟨rfl, rfl, ⟨rfl, rfl⟩, rfl, List.length_set⟩
  | failed _ hWorld =>
    rw [hWorld]
    exact ⟨rfl, rfl, ⟨rfl, rfl⟩, rfl, rfl⟩

include hOverlay in
theorem Changes.overlay (h : v.Changes args phase none phase') :
    ∃ target, phase.world.change (v.directory phase.world) args = .ok target ∧
      (phase'.world.overlay v.overlay) = Table.assign directoryVar (some target) (phase.world.overlay v.overlay) := by
  cases h with
  | moved hChange hWorld =>
    refine ⟨_, hChange, ?_⟩
    rw [hWorld]
    simp [World.overlay, World.setOverlay, hOverlay]

include hOverlay in
theorem Changes.directory (h : v.Changes args phase none phase') :
    phase.world.change (v.directory phase.world) args = .ok (v.directory phase'.world) := by
  obtain ⟨target, hChange, hSet⟩ := h.overlay hOverlay
  rw [hChange, Invoker.directory, Overlay.directory, hSet, Table.find?_assign, if_pos rfl]
  rfl

include hOverlay in
theorem Changes.moves (hBase : Path.isAbsolute phase.world.host.workDirectory = true)
    (hDir : v.directory phase.world = "" ∨ Path.isAbsolute (v.directory phase.world) = true) {path : String}
    (h : v.Changes [path] phase none phase') :
    World.Moved v.overlay (Path.headingPlace phase.world.host.workDirectory (v.directory phase.world) path)
      phase.world phase'.world := by
  obtain ⟨target, hChange, hSet⟩ := h.overlay hOverlay
  obtain ⟨_, hPath, hTarget, hReaches⟩ := World.change_eq_ok.mp hChange
  cases hPath
  rw [Path.heading_eq hBase hDir] at hTarget
  obtain ⟨feed, hFound⟩ := hReaches.found
  rw [Path.heading_eq hBase hDir] at hFound
  have hNames := @Path.headingPlace_isName phase.world.host.workDirectory (v.directory phase.world) path
  refine ⟨hNames, ?_, ?_, ?_, ?_⟩
  · rw [hSet, Table.find?_assign, if_pos rfl, hTarget]
  · rw [h.frame.2.1]
    exact World.isDirectory_of_serve hNames hFound
  · intro key hKey
    rw [hSet, Table.find?_assign, if_neg hKey]
  · intro other hOther
    cases h with
    | moved _ hWorld =>
      rw [hWorld]
      exact List.getElem?_set_ne (Ne.symm hOther)

end Changes

/-- A `cd` ends at once, with a failure just if there is no directory where it leads. If it fails nothing is changed
but for what is traced, and else the directory is the one where it leads and nothing else is set. Two that succeed
one after the other come to the same as one along the joined path. -/
theorem cd_composes (v : Invoker) (nested : Nested) (m : Mode) (text : Bytes) (phase : Phase)
    (hCd : phase.world.builtin? "cd" = some ⟨true, Builtin.cd⟩)
    (hBase : Path.isAbsolute phase.world.host.workDirectory = true)
    (hDir : v.directory phase.world = "" ∨ Path.isAbsolute (v.directory phase.world) = true)
    (hOverlay : v.overlay < phase.world.overlays.length) :
    (∀ s args, s.IsCd args → ∃ result phase', v.runStatements nested m text [s] phase = .done result phase' ∧
      ((∃ out, result = .ok out) ↔ ∃ path, args = [path] ∧ phase.world.Reaches (v.directory phase.world) path) ∧
      (∀ fault, result = .error fault → phase'.world = { phase.world with trace := phase'.world.trace }) ∧
      ∀ path out, args = [path] → result = .ok out →
        World.Moved v.overlay (Path.headingPlace phase.world.host.workDirectory (v.directory phase.world) path)
          phase.world phase'.world) ∧
    ∀ s₁ s₂ s first second, s₁.IsCd [first] → s₂.IsCd [second] → s.IsCd [first ++ "/" ++ second] →
      first ≠ "" → Path.isAbsolute second = false →
      ∀ out phase₂, v.runStatements nested m text [s₁, s₂] phase = .done (.ok out) phase₂ →
        ∃ phase₁, v.runStatements nested m text [s] phase = .done (.ok out) phase₁ ∧
          v.directory phase₁.world = v.directory phase₂.world := by
  constructor
  · intro s args hs
    obtain ⟨fault, phase', hChanges, hRun⟩ := runStatements_cd nested hCd m text [] hs
    cases fault with
    | none =>
      refine ⟨.ok [], phase', hRun, ?_, fun _ hFault => (by cases hFault), ?_⟩
      · exact iff_of_true ⟨_, rfl⟩ (hChanges.eq_none_iff.mp rfl)
      · rintro path _ rfl _
        exact hChanges.moves hOverlay hBase hDir
    | some fault =>
      refine ⟨.error fault, phase', hRun, ?_, ?_, fun _ _ _ hOut => (by cases hOut)⟩
      · refine iff_of_false (by simp) fun hThere => ?_
        cases hChanges.eq_none_iff.mpr hThere
      · intro _ _
        cases hChanges with
        | failed _ hWorld => rw [hWorld]
  · intro s₁ s₂ s first second hs₁ hs₂ hs hFirst hSecond out phase₂ hTwo
    obtain ⟨fault₁, middle, hMiddle, hRun₁⟩ := runStatements_cd nested hCd m text [s₂] hs₁
    rw [hRun₁] at hTwo
    cases fault₁ with
    | some fault => cases hTwo
    | none =>
      obtain ⟨hBuiltins, -, hMemory, hHost, hLength⟩ := hMiddle.frame
      have hCd' : middle.world.builtin? "cd" = some ⟨true, Builtin.cd⟩ := (congrFun hBuiltins "cd").trans hCd
      obtain ⟨fault₂, last, hLast, hRun₂⟩ := runStatements_cd nested hCd' m [] [] hs₂
      rw [hRun₂] at hTwo
      cases fault₂ with
      | some fault => cases hTwo
      | none =>
        cases hTwo
        have hChange := hMiddle.directory hOverlay
        have hChange' := hLast.directory (hLength ▸ hOverlay)
        rw [World.change_congr hMemory hHost] at hChange'
        have hTogether := World.change_change hBase hDir hFirst hSecond hChange hChange'
        obtain ⟨fault, phase₁, hOne, hRun⟩ := runStatements_cd nested hCd m text [] hs
        obtain ⟨path, hPath, -, hReaches⟩ := World.change_eq_ok.mp hTogether
        obtain rfl : fault = none := hOne.eq_none_iff.mpr ⟨path, hPath, hReaches⟩
        refine ⟨phase₁, hRun, ?_⟩
        have hLanded := (hOne.directory hOverlay).symm.trans hTogether
        exact Except.ok.inj hLanded

/-- Two directories of which neither is within the other. -/
def siblings : Phase :=
  ⟨{ World.bench [] with memory := ⟨[(["a"], .directory), (["b"], .directory)]⟩ }, .opened, false, false⟩

/-- `cd a` and then `cd ../b`. -/
theorem cd_composes_siblings :
    ∃ phase₁ phase₂,
      bench.runStatements (nestedRun [] 0) .run [] [.cd "a", .cd "../b"] siblings = .done (.ok []) phase₂ ∧
        bench.runStatements (nestedRun [] 0) .run [] [.cd "a/../b"] siblings = .done (.ok []) phase₁ ∧
        bench.directory phase₁.world = "/b" ∧ bench.directory phase₂.world = "/b" := by
  obtain ⟨-, hTogether⟩ :=
    cd_composes bench (nestedRun [] 0) .run [] siblings rfl (by decide +kernel) (.inl rfl) (by decide)
  let two := bench.runStatements (nestedRun [] 0) .run [] [.cd "a", .cd "../b"] siblings
  have hDone : two.isDone = true := by decide +kernel
  have hOut : two.complete.1.toOption = some [] := by decide +kernel
  have hThere : bench.directory two.complete.2.world = "/b" := by decide +kernel
  cases hTwo : two with
  | wait why phase resume =>
    rw [hTwo] at hDone
    cases hDone
  | done result phase₂ =>
    rw [hTwo] at hOut hThere
    cases result with
    | error fault => cases hOut
    | ok out =>
      obtain rfl : out = [] := Option.some.inj hOut
      have hJoined : "a" ++ "/" ++ "../b" = "a/../b" := rfl
      obtain ⟨phase₁, hOne, hSame⟩ := hTogether (.cd "a") (.cd "../b") (.cd "a/../b") "a" "../b" ⟨rfl, rfl, rfl⟩
        ⟨rfl, rfl, rfl⟩ ⟨rfl, rfl, rfl⟩ (by decide) (by decide +kernel) [] phase₂ hTwo
      exact ⟨phase₁, phase₂, hTwo, hOne, hSame.trans hThere, hThere⟩

end Invoker

end Pipework
