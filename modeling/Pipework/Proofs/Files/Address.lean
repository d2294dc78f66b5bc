import Pipework.Proofs.Files.Writer

/-!
# Commands that write to a file

A command addresses a place in memory if its output is redirected to a path that names the place, or if it is a
`tee` to such a path. Either opens the file once and closes it once. In between the stage may do what it likes,
as long as it asks for no change of another file.
-/

namespace Pipework

namespace Redirection

/-- No file is opened for writing. -/
def Spares (r : Redirection) : Prop := r.fd = 0 ∨ ∀ path, r.target ≠ .file path

/-- No file is opened for writing, and the output is left where it leads. -/
structure Aside (r : Redirection) : Prop where
  spares : r.Spares
  output : r.fd ≠ 1

end Redirection

namespace Wiring

variable {storage : Storage} {dir : String} {w w' : Wiring} {world world' : World}

theorem refresh_streams (w : Wiring) (storage : Storage) (world : World) :
    (w.refresh storage world).out = w.out ∧ (w.refresh storage world).err = w.err ∧
      (w.refresh storage world).handles = w.handles := by
  unfold refresh
  split
  · split
    · exact ⟨rfl, rfl, rfl⟩
    · split
      · exact ⟨rfl, rfl, rfl⟩
      · exact ⟨rfl, rfl, rfl⟩
  · exact ⟨rfl, rfl, rfl⟩

def Fileless (w : Wiring) : Prop := w.out.isFile = false ∧ w.err.isFile = false

/-- If the errors lead to a file, it is that of the output. -/
def Joint (w : Wiring) : Prop := w.err.isFile = true → w.err = w.out

theorem Fileless.point (h : w.Fileless) (fd : Int) {sink : Sink} (hSink : sink.isFile = false) :
    (w.point fd sink).Fileless := by
  unfold Wiring.point
  split
  · exact ⟨hSink, h.2⟩
  · exact ⟨h.1, hSink⟩

theorem Fileless.sink (h : w.Fileless) (fd : Int) : (w.sink fd).isFile = false := by
  unfold Wiring.sink
  split
  · exact h.1
  · exact h.2

theorem redirect_input {r : Redirection} (hInput : r.fd = 0)
    (h : w.redirect storage dir r world = (.ok w', world')) :
    (w'.out = w.out ∧ w'.err = w.err ∧ w'.handles = w.handles) ∧ world'.shelf = world.shelf := by
  unfold redirect at h
  rw [if_pos hInput] at h
  split at h
  · cases h
    exact ⟨⟨rfl, rfl, rfl⟩, rfl⟩
  · cases h
    exact ⟨⟨rfl, rfl, rfl⟩, rfl⟩
  · next path hTarget =>
    have hShelf : (world.serve storage (.read (Path.resolve dir path))).2.shelf = world.shelf :=
      world.shelf_serve fun _ => rfl
    dsimp only at h
    cases hServe : world.serve storage (.read (Path.resolve dir path)) with
    | mk reply world₁ =>
      rw [hServe] at h hShelf
      cases reply with
      | ok feed =>
        cases h
        exact ⟨⟨rfl, rfl, rfl⟩, hShelf⟩
      | error fault => cases h

theorem redirect_spares {r : Redirection} (hr : r.Spares) (h : w.redirect storage dir r world = (.ok w', world')) :
    w'.handles = w.handles ∧ world'.shelf = world.shelf ∧ (w.Fileless → w'.Fileless) := by
  by_cases hInput : r.fd = 0
  · obtain ⟨⟨hOut, hErr, hHandles⟩, hShelf⟩ := redirect_input hInput h
    refine ⟨hHandles, hShelf, ?_⟩
    rintro ⟨hOutFile, hErrFile⟩
    exact ⟨hOut ▸ hOutFile, hErr ▸ hErrFile⟩
  · have hFile := hr.resolve_left hInput
    unfold redirect at h
    rw [if_neg hInput] at h
    have hPoint : ∀ sink, (w.point r.fd sink).handles = w.handles := by
      intro sink
      unfold point
      split <;> rfl
    split at h
    · cases h
      exact ⟨hPoint .null, rfl, fun hLess => hLess.point r.fd rfl⟩
    · cases h
      exact ⟨hPoint _, rfl, fun hLess => hLess.point r.fd (hLess.sink _)⟩
    · next path hTarget => exact absurd hTarget (hFile path)

theorem redirect_aside {r : Redirection} (hr : r.Aside) (h : w.redirect storage dir r world = (.ok w', world')) :
    w'.out = w.out ∧ (w.Joint → w'.Joint) := by
  by_cases hInput : r.fd = 0
  · obtain ⟨⟨hOut, hErr, -⟩, -⟩ := redirect_input hInput h
    refine ⟨hOut, ?_⟩
    intro hJoint
    unfold Joint
    rwa [hOut, hErr]
  · have hFile := hr.spares.resolve_left hInput
    have hPoint : ∀ sink, w.point r.fd sink = { w with err := sink } := fun sink => if_neg hr.output
    unfold redirect at h
    rw [if_neg hInput] at h
    split at h
    · cases h
      rw [hPoint]
      exact ⟨rfl, fun _ hIs => by cases hIs⟩
    · next n hTarget =>
      cases h
      rw [hPoint]
      refine ⟨rfl, ?_⟩
      intro hJoint
      unfold sink
      split
      · exact fun _ => rfl
      · exact hJoint
    · next path hTarget => exact absurd hTarget (hFile path)

theorem redirectAll_of_redirect {r : Redirection} (h : w.redirect storage dir r world = (.ok w', world'))
    (rs : List Redirection) :
    w.redirectAll storage dir (r :: rs) world = w'.redirectAll storage dir rs world' := by
  rw [redirectAll, h]

theorem redirectAll_cons {r : Redirection} {rs : List Redirection}
    (h : w.redirectAll storage dir (r :: rs) world = (.ok w', world')) :
    ∃ w₁ world₁, w.redirect storage dir r world = (.ok w₁, world₁) ∧
      w₁.redirectAll storage dir rs world₁ = (.ok w', world') := by
  unfold redirectAll at h
  cases hFirst : w.redirect storage dir r world with
  | mk reply world₁ =>
    rw [hFirst] at h
    cases reply with
    | ok w₁ => exact ⟨w₁, world₁, rfl, h⟩
    | error fault => cases h

theorem redirectAll_spares {rs : List Redirection} (hrs : ∀ r ∈ rs, r.Spares)
    (h : w.redirectAll storage dir rs world = (.ok w', world')) :
    w'.handles = w.handles ∧ world'.shelf = world.shelf ∧ (w.Fileless → w'.Fileless) := by
  induction rs generalizing w world with
  | nil =>
    cases h
    obtain ⟨hOut, hErr, hHandles⟩ := w.refresh_streams storage world'
    refine ⟨hHandles, rfl, ?_⟩
    rintro ⟨hOutFile, hErrFile⟩
    exact ⟨hOut ▸ hOutFile, hErr ▸ hErrFile⟩
  | cons r rs ih =>
    obtain ⟨hr, hrs⟩ := List.forall_mem_cons.mp hrs
    obtain ⟨w₁, world₁, hFirst, hRest⟩ := redirectAll_cons h
    obtain ⟨hHandles, hShelf, hLess⟩ := redirect_spares hr hFirst
    obtain ⟨hHandles', hShelf', hLess'⟩ := ih hrs hRest
    exact ⟨hHandles'.trans hHandles, hShelf'.trans hShelf, fun h => hLess' (hLess h)⟩

theorem redirectAll_aside {rs : List Redirection} (hrs : ∀ r ∈ rs, r.Aside)
    (h : w.redirectAll storage dir rs world = (.ok w', world')) :
    w'.out = w.out ∧ (w.Joint → w'.Joint) := by
  induction rs generalizing w world with
  | nil =>
    cases h
    obtain ⟨hOut, hErr, -⟩ := w.refresh_streams storage world'
    refine ⟨hOut, ?_⟩
    intro hJoint
    unfold Joint
    rwa [hOut, hErr]
  | cons r rs ih =>
    obtain ⟨hr, hrs⟩ := List.forall_mem_cons.mp hrs
    obtain ⟨w₁, world₁, hFirst, hRest⟩ := redirectAll_cons h
    obtain ⟨hOut, hJoint⟩ := redirect_aside hr hFirst
    obtain ⟨hOut', hJoint'⟩ := ih hrs hRest
    exact ⟨hOut'.trans hOut, fun h => hJoint' (hJoint h)⟩

theorem redirect_eq {name : String} {appends : Bool} {feed : Feed}
    (h : world.serve .shell (World.opening appends (Path.resolve dir name)) = (.ok feed, world')) :
    w.redirect .shell dir ⟨1, .file name, appends⟩ world =
      (.ok { w with
        out := .file w.handles.length
        handles := w.handles ++ [⟨.shell, Path.resolve dir name, appends, []⟩] }, world') := by
  unfold World.opening at h
  unfold redirect
  rw [if_neg Int.one_ne_zero]
  dsimp only
  rw [h]
  rfl

theorem redirect_opens {name : String} {appends : Bool} {t : FileTree} (hShelf : world.shelf = (true, t))
    (hWritable : t.Writable (Memory.place (Path.resolve dir name)))
    (h : w.redirect .shell dir ⟨1, .file name, appends⟩ world = (.ok w', world')) :
    (w'.out = .file w.handles.length ∧ w'.err = w.err ∧
      w'.handles = w.handles ++ [⟨.shell, Path.resolve dir name, appends, []⟩]) ∧
    ∃ t', world'.shelf = (true, t') ∧
      t.Becomes (Memory.place (Path.resolve dir name))
        (if appends then t.content (Memory.place (Path.resolve dir name)) else []) t' := by
  obtain ⟨t', hOk, hOpened, hBecomes⟩ := World.serve_opening hShelf hWritable appends
  rw [redirect_eq (Prod.ext hOk rfl)] at h
  cases h
  exact ⟨⟨rfl, rfl, rfl⟩, t', hOpened, hBecomes⟩

/-- Among redirections that open no file for writing, one opens a file for the output. -/
theorem redirectAll_opens {before after : List Redirection} {name : String} {appends : Bool} {t : FileTree}
    (hBefore : ∀ r ∈ before, r.Spares) (hAfter : ∀ r ∈ after, r.Aside) (hShelf : world.shelf = (true, t))
    (hWritable : t.Writable (Memory.place (Path.resolve dir name))) (hLess : w.Fileless)
    (h : w.redirectAll .shell dir (before ++ ⟨1, .file name, appends⟩ :: after) world = (.ok w', world')) :
    (w'.out = .file w.handles.length ∧ w'.Joint ∧
      w'.handles = w.handles ++ [⟨.shell, Path.resolve dir name, appends, []⟩]) ∧
    ∃ t', world'.shelf = (true, t') ∧
      t.Becomes (Memory.place (Path.resolve dir name))
        (if appends then t.content (Memory.place (Path.resolve dir name)) else []) t' := by
  induction before generalizing w world with
  | nil =>
    obtain ⟨w₁, world₁, hFirst, hRest⟩ := redirectAll_cons h
    obtain ⟨⟨hOut, hErr, hHandles⟩, t', hOpened, hBecomes⟩ := redirect_opens hShelf hWritable hFirst
    obtain ⟨hHandles', hShelf', -⟩ := redirectAll_spares (fun r hr => (hAfter r hr).spares) hRest
    obtain ⟨hOut', hJoint⟩ := redirectAll_aside hAfter hRest
    have hNoFile : w₁.err.isFile = false := hErr ▸ hLess.2
    refine ⟨⟨hOut'.trans hOut, hJoint ?_, hHandles'.trans hHandles⟩, t', hShelf'.trans hOpened, hBecomes⟩
    simp [Joint, hNoFile]
  | cons r before ih =>
    obtain ⟨hr, hBefore⟩ := List.forall_mem_cons.mp hBefore
    obtain ⟨w₁, world₁, hFirst, hRest⟩ := redirectAll_cons h
    obtain ⟨hHandles, hShelf₁, hLess₁⟩ := redirect_spares hr hFirst
    rw [← hHandles]
    exact ih hBefore (hShelf₁.trans hShelf) (hLess₁ hLess) hRest

end Wiring

namespace Builtin

/-- What is left of a `tee` that has copied its input: what it copied goes to the file. -/
def teeClose (path : String) (copied : Bytes × Option Fault) : Task Unit := do
  closeAll copied.1 [path]
  Task.check copied.2

def teeCopy (path : String) : Task Unit := do teeClose path (← Task.perform (.relay Filter.all))

theorem teeCopy_eq (path : String) : teeCopy path = Program.act (.relay Filter.all) (teeClose path) := rfl

theorem teeClose_eq (path : String) (copied : Bytes × Option Fault) :
    ∃ result : Except Fault Unit,
      teeClose path copied = Program.act (.files .shell (.commit path copied.1)) fun _ => .done result := by
  obtain ⟨data, fault⟩ := copied
  cases fault with
  | none => exact ⟨.ok (), rfl⟩
  | some fault => exact ⟨.error fault, rfl⟩

theorem tee_eq {name : String} (hName : name ≠ "-a") (appends : Bool) (env : Table) (dir : String)
    (hostInput : Bool) :
    ∃ next : Except Fault Feed → Program (Except Fault Unit),
      tee ⟨"tee" :: if appends then ["-a", name] else [name], env, dir, hostInput⟩ =
        Program.act (.files .shell (World.opening appends (Path.resolve dir name))) next ∧
      ∀ feed, next (.ok feed) = teeCopy (Path.resolve dir name) := by
  have hTee : tee ⟨"tee" :: if appends then ["-a", name] else [name], env, dir, hostInput⟩ =
      (do openAll appends [] [Path.resolve dir name]; teeCopy (Path.resolve dir name) : Task Unit) := by
    cases appends with
    | true => rfl
    | false =>
      unfold tee
      dsimp only [List.tail]
      split
      · next names hArgs =>
        cases hArgs
        exact absurd rfl hName
      · rfl
  rw [hTee]
  exact ⟨_, rfl, fun _ => rfl⟩

end Builtin

section Writing

variable {S : Type} (t : FileTree) (p : Place) (base : Bytes) (st : Stage)

/-- The output of the stage leads to the file at `p`, which was opened in the tree `t` and held `base` then. The
stage has said `b`. -/
structure Redirects (work : Work S) (b : Bytes) (shelf : Bool × FileTree) : Prop where
  out : st.out = .file 0
  gathers : ∃ h : Handle, h.storage = .shell ∧ Memory.place h.path = p ∧ h.data = [] ∧ work.Gathers st [h] b
  spares : work.Spares
  becomes : ∃ t', shelf = (true, t') ∧ t.Becomes p base t'

/-- How far a `tee` to the file at `path` has come, and what it has said. -/
inductive Tees (path : String) : Work S → Bytes → Bool × FileTree → Prop
  | fresh {appends : Bool} {next : Except Fault Feed → Program (Except Fault Unit)} {desk : Desk}
      (hWritable : t.Writable (Memory.place path))
      (hBase : base = if appends then t.content (Memory.place path) else [])
      (hNext : ∀ feed, next (.ok feed) = Builtin.teeCopy path) :
    Tees path (.ready (.act (.files .shell (World.opening appends path)) next) desk) [] (true, t)
  | opened {desk : Desk} {t' : FileTree} (h : t.Becomes (Memory.place path) base t') :
    Tees path (.ready (.act (.relay Filter.all) (Builtin.teeClose path)) desk) [] (true, t')
  | waiting {resume : Signal → Line → Reply (Action.relay Filter.all).Answer} {t' : FileTree}
      (h : t.Becomes (Memory.place path) base t')
      (hLeaves : ∀ signal line, (resume signal line).Leaves Line.shelf line.shelf) :
    Tees path (@Work.waiting _ (.relay Filter.all) resume (Builtin.teeClose path)) [] (true, t')
  | copied {result : Except Fault Unit} {desk : Desk} {data : Bytes} {t' : FileTree}
      (h : t.Becomes (Memory.place path) base t') :
    Tees path (.ready (.act (.files .shell (.commit path data)) fun _ => .done result) desk) data (true, t')
  | closed {result : Except Fault Unit} {desk : Desk} {b : Bytes} {t' : FileTree}
      (h : t.Becomes (Memory.place path) (base ++ b) t') :
    Tees path (.ready (.done result) desk) b (true, t')

/-- The stage writes to the file at `p` and has said `b`. -/
structure Writes (work : Work S) (b : Bytes) (shelf : Bool × FileTree) : Prop where
  joint : st.Joint
  way : Redirects t p base st work b shelf ∨
    work.Gathers st [] b ∧ ∃ path, Memory.place path = p ∧ Tees t base path work b shelf

end Writing

namespace Tees

variable {t : FileTree} {base : Bytes} {st : Stage} {path : String} {C : Calls} {mayCall : Prop}
  {work work' : Work C.State} {line line' : Line} {said b : Bytes}

theorem of_after {reply : Reply (Action.relay Filter.all).Answer} {t' : FileTree}
    (hOn : st.after (Builtin.teeClose path) reply = (.on work, line))
    (hLeaves : reply.Leaves Line.shelf (true, t')) (h : t.Becomes (Memory.place path) base t') :
    Tees t base path work (@Stage.saidIn st (.relay Filter.all) reply) line.shelf := by
  rcases Stage.after_eq_on hOn with ⟨desk, answer, rfl, rfl⟩ | ⟨why, resume, rfl, rfl⟩
  · have hShelf : line.shelf = (true, t') := hLeaves
    obtain ⟨result, hClose⟩ := Builtin.teeClose_eq path answer
    rw [hShelf, hClose]
    exact .copied h
  · have hShelf : line.shelf = (true, t') := hLeaves.1
    rw [hShelf]
    exact .waiting h hLeaves.2

theorem turn (hTells : Tells C mayCall st (work, line) said (work', line'))
    (h : Tees t base path work b line.shelf) : Tees t base path work' (b ++ said) line'.shelf := by
  -- The memory changes when the file is opened and when it is closed, and not while the input is copied.
  generalize hShelf : line.shelf = shelf at h
  cases h with
  | @fresh appends next desk hWritable hBase hNext =>
    obtain ⟨rfl, rfl, rfl⟩ := hTells.files
    obtain ⟨t', hOk, hOpened, hBecomes⟩ := World.serve_opening hShelf hWritable appends
    rw [hOk, hNext, Builtin.teeCopy_eq]
    have hShelf' : Line.shelf { line with world := (line.world.serve .shell (World.opening appends path)).2 } =
        (true, t') := hOpened
    rw [hShelf']
    exact .opened (hBase ▸ hBecomes)
  | opened h =>
    cases hTells with
    | act nested hInvokes hFinite hOn =>
      rw [List.nil_append]
      exact of_after hOn (hShelf ▸ st.perform_leaves_shelf nested _ line rfl rfl) h
  | waiting h hLeaves =>
    cases hTells with
    | resume signal hStop hOn =>
      rw [List.nil_append]
      exact of_after hOn (hShelf ▸ hLeaves signal line) h
  | @copied result desk _ t' h =>
    obtain ⟨rfl, rfl, rfl⟩ := hTells.files
    obtain ⟨t'', hCommitted, hBecomes⟩ := World.serve_commit hShelf h b
    have hShelf' : Line.shelf { line with world := (line.world.serve .shell (.commit path b)).2 } = (true, t'') :=
      hCommitted
    rw [hShelf', List.append_nil]
    exact .closed hBecomes
  | closed h => cases hTells

end Tees

namespace Writes

variable {t : FileTree} {p : Place} {base : Bytes} {st : Stage} {b : Bytes}

theorem turn {C : Calls} {mayCall : Prop} {work work' : Work C.State} {line line' : Line} {said : Bytes}
    (hTells : Tells C mayCall st (work, line) said (work', line')) (h : Writes t p base st work b line.shelf) :
    Writes t p base st work' (b ++ said) line'.shelf := by
  refine ⟨h.joint, ?_⟩
  rcases h.way with hRedirects | ⟨hGathers, path, hPlace, hTees⟩
  · obtain ⟨handle, hStorage, hPath, hData, hGathers⟩ := hRedirects.gathers
    obtain ⟨hSpares, hShelf⟩ := hTells.spares hRedirects.spares
    refine .inl ⟨hRedirects.out, ⟨handle, hStorage, hPath, hData, hTells.gathers h.joint hGathers⟩, hSpares, ?_⟩
    rw [hShelf]
    exact hRedirects.becomes
  · exact .inr ⟨hTells.gathers h.joint hGathers, path, hPlace, hTees.turn hTells⟩

theorem close {S : Type} {result : Except Fault Unit} {desk : Desk} {line : Line}
    (h : Writes (S := S) t p base st (.ready (.done result) desk) b line.shelf) (fault : Option Fault) :
    ∃ t', (st.close fault desk line).shelf = (true, t') ∧ t.Becomes p (base ++ b) t' := by
  have hClose : (st.close fault desk line).shelf = (line.world.closeAll desk.handles).shelf :=
    congrArg World.shelf (World.releaseAll_eq _ _)
  rw [hClose]
  rcases h.way with hRedirects | ⟨hGathers, path, rfl, hTees⟩
  · obtain ⟨⟨storage, path, atEnd, data⟩, rfl, rfl, rfl, hGathers⟩ := hRedirects.gathers
    obtain ⟨t', hShelf, hBecomes⟩ := hRedirects.becomes
    have hHandles : desk.handles = [⟨.shell, path, atEnd, b⟩] := by
      have hDesk : desk.handles = st.out.gathered [⟨.shell, path, atEnd, []⟩] b := hGathers
      rw [hDesk, hRedirects.out]
      rfl
    rw [hHandles]
    exact World.serve_commit hShelf hBecomes b
  · -- A `tee` has closed its file by itself, and its stage has none open.
    have hHandles : desk.handles = [] := by
      have hDesk : desk.handles = st.out.gathered [] b := hGathers
      rw [hDesk]
      cases st.out <;> simp [Sink.gathered]
    rw [hHandles]
    generalize hShelf : line.shelf = shelf at hTees
    cases hTees with
    | closed hBecomes => exact ⟨_, hShelf, hBecomes⟩

end Writes

namespace Invoker

/-- The command writes to the file at `p` in memory, and without `appends` it empties it before. It is a builtin: the
files that a process opens are those of the host. -/
inductive Addresses (v : Invoker) (world : World) (p : Place) (appends : Bool) (c : Command) : Prop
  | redirection {b : Builtin} {before after : List Redirection} {name : String}
      (hBuiltin : world.builtin? (c.args.headD "") = some b)
      (hSpares : ∀ dir hostInput, Program.Spares (b.task ⟨c.args, c.env, dir, hostInput⟩))
      (hRedirections : c.redirections = before ++ ⟨1, .file name, appends⟩ :: after)
      (hBefore : ∀ r ∈ before, r.Spares) (hAfter : ∀ r ∈ after, r.Aside)
      (hPlace : Memory.place (Path.resolve (v.directory world) name) = p)
  | tee {name : String} (hBuiltin : world.builtin? "tee" = some (.concurrent Builtin.tee))
      (hArgs : c.args = "tee" :: if appends then ["-a", name] else [name]) (hName : name ≠ "-a")
      (hSpares : ∀ r ∈ c.redirections, r.Spares)
      (hPlace : Memory.place (Path.resolve (v.directory world) name) = p)

variable {v : Invoker} {output : Output} {index : Nat} {isLast : Bool} {c : Command} {line line' : Line}
  {start : Launch}

theorem launch_of_redirectAll {b : Builtin} {w : Wiring} {world : World}
    (hBuiltin : line.world.builtin? (c.args.headD "") = some b)
    (hRedirect : (Wiring.initial (if index = 0 then .host else .pipe)).redirectAll .shell (v.directory line.world)
      c.redirections line.world = (.ok w, world)) :
    v.launch output index isLast c line =
      (.ok ⟨b.inOrder,
        ⟨index, isLast, false, located (v.directory line.world) c.render, w.source, w.path, w.out, w.err, w.readings,
          output, v.overlay, v.context⟩,
        b.task ⟨c.args, c.env, v.directory line.world, w.source == .host⟩, ⟨w.feed, w.handles, []⟩⟩,
        { line with world := world }) := by
  unfold launch
  dsimp only
  rw [hBuiltin]
  simp only [Option.isSome_some, if_true, hRedirect]

/-- How a builtin is launched: its redirections are applied, and it gets the streams that they lead to. -/
theorem launch_builtin_ok {b : Builtin} (hBuiltin : line.world.builtin? (c.args.headD "") = some b)
    (hLaunch : v.launch output index isLast c line = (.ok start, line')) :
    ∃ source w, (Wiring.initial source).redirectAll .shell (v.directory line.world) c.redirections line.world =
        (.ok w, line'.world) ∧
      start.task = b.task ⟨c.args, c.env, v.directory line.world, w.source == .host⟩ ∧
      start.desk.handles = w.handles ∧ start.stage.out = w.out ∧ start.stage.err = w.err := by
  refine ⟨if index = 0 then .host else .pipe, ?_⟩
  cases hRedirect : (Wiring.initial (if index = 0 then .host else .pipe)).redirectAll .shell
      (v.directory line.world) c.redirections line.world with
  | mk reply world =>
    cases reply with
    | ok w =>
      rw [launch_of_redirectAll hBuiltin hRedirect] at hLaunch
      cases hLaunch
      exact ⟨w, rfl, rfl, rfl, rfl, rfl⟩
    | error fault =>
      unfold launch at hLaunch
      simp only [hBuiltin, Option.isSome_some, if_true, hRedirect] at hLaunch
      cases hLaunch

theorem Addresses.launch {S : Type} {p : Place} {appends : Bool} {t : FileTree}
    (h : v.Addresses line.world p appends c) (hShelf : line.shelf = (true, t)) (hWritable : t.Writable p)
    (hLaunch : v.launch output index isLast c line = (.ok start, line')) :
    Writes (S := S) t p (if appends then t.content p else []) start.stage (.ready start.task start.desk) []
      line'.shelf := by
  cases h with
  | @redirection b before after name hBuiltin hSpares hRedirections hBefore hAfter hPlace =>
    obtain ⟨source, w, hRedirect, hTask, hHandles, hOut, hErr⟩ := launch_builtin_ok hBuiltin hLaunch
    subst hPlace
    rw [hRedirections] at hRedirect
    obtain ⟨⟨hFile, hJoint, hOpen⟩, hBecomes⟩ :=
      Wiring.redirectAll_opens hBefore hAfter hShelf hWritable ⟨rfl, rfl⟩ hRedirect
    let handle : Handle := ⟨.shell, Path.resolve (v.directory line.world) name, appends, []⟩
    refine ⟨?_, .inl ⟨hOut.trans hFile, ⟨handle, rfl, rfl, rfl, ?_⟩, ?_, hBecomes⟩⟩
    · unfold Stage.Joint
      rwa [hOut, hErr]
    · exact (hHandles.trans hOpen).trans (start.stage.out.gathered_nil _).symm
    · rw [hTask]
      exact hSpares _ _
  | @tee name hBuiltin hArgs hName hSpares hPlace =>
    have hHead : line.world.builtin? (c.args.headD "") = some (.concurrent Builtin.tee) := by rw [hArgs]; exact hBuiltin
    obtain ⟨source, w, hRedirect, hTask, hHandles, hOut, hErr⟩ := launch_builtin_ok hHead hLaunch
    subst hPlace
    obtain ⟨hNone, hSame, hLess⟩ := Wiring.redirectAll_spares hSpares hRedirect
    have hNoFile : start.stage.err.isFile = false := hErr ▸ (hLess ⟨rfl, rfl⟩).2
    refine ⟨?_, .inr ⟨?_, _, rfl, ?_⟩⟩
    · simp [Stage.Joint, hNoFile]
    · exact (hHandles.trans hNone).trans (start.stage.out.gathered_nil _).symm
    · let path := Path.resolve (v.directory line.world) name
      obtain ⟨next, hTee, hNext⟩ := Builtin.tee_eq hName appends c.env (v.directory line.world) (w.source == .host)
      have hStart : start.task = Program.act (.files .shell (World.opening appends path)) next := by
        rw [hTask, hArgs]
        exact hTee
      have hShelf' : line'.shelf = (true, t) := hSame.trans hShelf
      rw [hStart, hShelf']
      exact .fresh hWritable rfl hNext

end Invoker

end Pipework
