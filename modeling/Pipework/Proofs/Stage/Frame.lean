import Pipework.Stage

/-!
# What the actions of a stage leave alone

Whatever a stage reads, writes or asks for, the status of its pipeline stays as it is, and so do the
overlays and the scope unless it sets a variable, and the files in memory unless it asks for a change of them.
This is said of runs: at every wait others may change
all of it, and the stage then leaves what they made of it.
-/

namespace Pipework

namespace Run

variable {σ α β γ : Type}

/-- The part `f` of the state is `b` at the first wait or at the end, and from there on what it was
when the run was resumed. -/
def Leaves (f : σ → γ) (b : γ) : Run σ α → Prop
  | .done _ state => f state = b
  | .wait _ state resume => f state = b ∧ ∀ signal state, (resume signal state).Leaves f (f state)

theorem Leaves.bind {f : σ → γ} {b : γ} {r : Run σ α} {g : α → σ → Run σ β} (h : r.Leaves f b)
    (hg : ∀ a state, (g a state).Leaves f (f state)) : (r.bind g).Leaves f b := by
  induction r generalizing b with
  | done result state =>
    cases h
    exact hg result state
  | wait why state resume ih => exact ⟨h.1, fun signal state => ih signal state (h.2 signal state)⟩

theorem Leaves.comp {δ : Type} {f : σ → γ} {b : γ} {r : Run σ α} (h : r.Leaves f b) (g : γ → δ) :
    r.Leaves (g ∘ f) (g b) := by
  induction r generalizing b with
  | done result state => exact congrArg g h
  | wait why state resume ih =>
    exact ⟨congrArg g h.1, fun signal state => ih signal state (h.2 signal state)⟩

end Run

/-- How the stages of a pipeline ended so far, and whether it has been stopped. -/
structure Line.Status where
  board : Board
  canceled : Bool
  stopped : Bool

def Line.status (l : Line) : Line.Status := ⟨l.board, l.canceled, l.stopped⟩

/-- What no command changes: the builtins, and the working directory of the host. -/
def World.ground (w : World) : (String → Option Builtin) × String := (w.builtin?, w.host.workDirectory)

/-- What a pipeline has besides its files and streams. -/
structure Line.Frame extends Line.Status where
  scope : Scope
  overlays : List Overlay
  ground : (String → Option Builtin) × String

def Line.frame (l : Line) : Line.Frame := ⟨l.status, l.scope, l.world.overlays, l.world.ground⟩

theorem Host.serve_eq (h : Host) (request : FileRequest) : ∃ tree, (h.serve request).2 = { h with tree := tree } := by
  unfold serve
  split
  · next feed tree hAnswer => exact ⟨tree, rfl⟩
  · exact ⟨h.tree, rfl⟩

theorem Host.serveBuiltin_eq (h : Host) (request : FileRequest) :
    ∃ tree, (h.serveBuiltin request).2 = { h with tree := tree } := by
  unfold serveBuiltin
  dsimp only
  split
  · exact ⟨h.tree, rfl⟩
  · split
    · split
      · next path tree hMade => exact ⟨tree, rfl⟩
      · exact ⟨h.tree, rfl⟩
    · split
      · next feed tree hAnswer => exact ⟨tree, rfl⟩
      · exact ⟨h.tree, rfl⟩

namespace World

theorem serve_eq (w : World) (storage : Storage) (request : FileRequest) :
    ∃ memory tree, (w.serve storage request).2 = { w with memory := memory, host := { w.host with tree := tree } } := by
  unfold serve
  cases storage with
  | host =>
    obtain ⟨tree, hTree⟩ := w.host.serve_eq request
    exact ⟨w.memory, tree, congrArg (fun host => { w with host := host }) hTree⟩
  | shell =>
    dsimp only
    split
    · split
      · next feed memory hServe => exact ⟨memory, w.host.tree, rfl⟩
      · exact ⟨w.memory, w.host.tree, rfl⟩
    · obtain ⟨tree, hTree⟩ := w.host.serveBuiltin_eq request
      exact ⟨w.memory, tree, congrArg (fun host => { w with host := host }) hTree⟩

/-- No request to the files changes the part `f` of the world. -/
def Aloof {γ : Type} (f : World → γ) : Prop := ∀ w storage request, f (World.serve w storage request).2 = f w

theorem Aloof.closeAll {γ : Type} {f : World → γ} (hf : Aloof f) (w : World) (handles : List Handle) :
    f (w.closeAll handles) = f w := by
  unfold World.closeAll
  induction handles generalizing w with
  | nil => rfl
  | cons h handles ih => rw [List.foldl_cons, ih, hf]

/-- No request to the files sees what `f` changes in the world, or changes it. -/
structure Unseen (f : World → World) : Prop where
  serve : ∀ w storage request,
    (f w).serve storage request = ((World.serve w storage request).1, f (World.serve w storage request).2)
  isHeld : ∀ w storage, (f w).isHeld storage = w.isHeld storage

theorem Unseen.closeAll {f : World → World} (hf : Unseen f) (w : World) (handles : List Handle) :
    (f w).closeAll handles = f (w.closeAll handles) := by
  unfold World.closeAll
  induction handles generalizing w with
  | nil => rfl
  | cons h handles ih => rw [List.foldl_cons, List.foldl_cons, hf.serve, ih]

@[simp] theorem overlays_serve (w : World) (storage : Storage) (request : FileRequest) :
    (w.serve storage request).2.overlays = w.overlays := by
  obtain ⟨memory, tree, hServe⟩ := w.serve_eq storage request
  rw [hServe]

@[simp] theorem overlays_closeAll (w : World) (handles : List Handle) :
    (w.closeAll handles).overlays = w.overlays := Aloof.closeAll overlays_serve w handles

@[simp] theorem ground_serve (w : World) (storage : Storage) (request : FileRequest) :
    (w.serve storage request).2.ground = w.ground := by
  obtain ⟨memory, tree, hServe⟩ := w.serve_eq storage request
  rw [hServe]
  rfl

@[simp] theorem ground_closeAll (w : World) (handles : List Handle) : (w.closeAll handles).ground = w.ground :=
  Aloof.closeAll ground_serve w handles

end World

@[simp] theorem World.serve_release (w : World) (storage : Storage) (path : String) :
    (w.serve storage (.release path)).2 = w := by
  unfold serve
  cases storage with
  | host => rfl
  | shell =>
    dsimp only
    split
    · rfl
    · unfold Host.serveBuiltin
      dsimp only
      split <;> rfl

@[simp] theorem World.releaseAll_eq (w : World) (readings : List Reading) : w.releaseAll readings = w := by
  induction readings with
  | nil => rfl
  | cons r readings ih =>
    have hCons : w.releaseAll (r :: readings) = (w.serve r.storage r.closing).2.releaseAll readings := rfl
    rw [hCons, Reading.closing, serve_release, ih]

@[simp] theorem Line.frame_serve (l : Line) (storage : Storage) (request : FileRequest) :
    Line.frame { l with world := (l.world.serve storage request).2 } = l.frame := by
  simp [frame, status]

def World.shelf (w : World) : Bool × FileTree := (w.inMemory, w.memory)

/-- Whether a request can change a file in memory. What is written to a file shows when its writer is closed. -/
def FileRequest.alters : FileRequest → Bool
  | .create _ | .append _ | .commit _ _ | .makeDirectory _ => true
  | _ => false

theorem World.shelf_serve (w : World) {storage : Storage} {request : FileRequest}
    (h : storage = .shell → request.alters = false) : (w.serve storage request).2.shelf = w.shelf := by
  cases storage with
  | host => rfl
  | shell =>
    unfold serve
    dsimp only
    split
    · split
      · next feed memory hServe =>
        have hSame : memory = w.memory := by
          cases request with
          | create path => cases h rfl
          | append path => cases h rfl
          | commit path data => cases h rfl
          | makeDirectory path => cases h rfl
          | read path =>
            cases hOpen : Memory.open? w.memory path <;> simp_all [serveMemory, Except.map]
          | load path =>
            cases hOpen : Memory.open? w.memory path <;> simp_all [serveMemory, Except.map]
          | isDirectory path =>
            unfold serveMemory at hServe
            dsimp only at hServe
            split at hServe
            · cases hServe
              rfl
            · cases hServe
          | _ =>
            cases hServe
            rfl
        exact congrArg (Prod.mk w.inMemory) hSame
      · rfl
    · rfl

def Line.shelf (l : Line) : Bool × FileTree := l.world.shelf

/-- What a pipeline has besides its streams and the files of the host. -/
def Line.rest (l : Line) : Line.Frame × Bool × FileTree := (l.frame, l.shelf)

theorem Line.rest_serve (l : Line) {storage : Storage} {request : FileRequest}
    (h : storage = .shell → request.alters = false) :
    Line.rest { l with world := (l.world.serve storage request).2 } = l.rest :=
  Prod.ext (l.frame_serve storage request) (l.world.shelf_serve h)

/-- No reading or writing changes the part `f` of a pipeline. -/
structure Line.Aloof {γ : Type} (f : Line → γ) : Prop where
  input : ∀ (l : Line) (data : Bytes), f { l with world := { l.world with input := data } } = f l
  output : ∀ (l : Line) (data : Bytes), f { l with world := { l.world with output := data } } = f l
  errors : ∀ (l : Line) (data : Bytes), f { l with world := { l.world with errors := data } } = f l
  captured : ∀ (l : Line) (data : Bytes), f { l with captured := data } = f l
  pipes : ∀ (l : Line) (pipes : List Feed), f { l with pipes := pipes } = f l
  mocks : ∀ (l : Line) (mocks : List (String × MockCommand)),
    f { l with world := { l.world with mocks := mocks } } = f l
  serve : ∀ (l : Line) {storage : Storage} {request : FileRequest}, (storage = .shell → request.alters = false) →
    f { l with world := (l.world.serve storage request).2 } = f l

theorem Line.aloof_rest : Aloof rest where
  input _ _ := rfl
  output _ _ := rfl
  errors _ _ := rfl
  captured _ _ := rfl
  pipes _ _ := rfl
  mocks _ _ := rfl
  serve l _ _ h := l.rest_serve h

namespace Line.Aloof

variable {γ : Type} {f : Line → γ} (hf : Aloof f) (st : Stage)

include hf

theorem deliver (sink : Sink) (data : Bytes) (desk : Desk) (line : Line) :
    (st.deliver sink data desk line).Leaves f (f line) := by
  unfold Stage.deliver
  split
  · rfl
  · exact hf.errors line _
  · split
    · rfl
    · exact hf.serve line fun _ => rfl
  · split
    · split
      · rfl
      · exact hf.pipes line _
    · split
      · exact hf.output line _
      · exact hf.captured line _
      · split
        · rfl
        · split
          · rfl
          · exact ⟨rfl, fun _ _ => rfl⟩

theorem flood (data : Bytes) (desk : Desk) (line : Line) : (st.flood data desk line).Leaves f (f line) := by
  unfold Stage.flood
  split
  · exact ⟨rfl, fun _ _ => rfl⟩
  · split
    · exact ⟨hf.pipes line _, fun _ _ => rfl⟩
    · split
      · split
        · rfl
        · exact ⟨rfl, fun _ _ => rfl⟩
      · exact ⟨rfl, fun _ _ => rfl⟩

theorem read (amount : Amount) (desk : Desk) (line : Line) : (st.read amount desk line).Leaves f (f line) := by
  unfold Stage.read
  split
  · exact hf.input line _
  · rfl
  · dsimp only
    split
    · exact hf.pipes line _
    · exact ⟨rfl, fun _ line => hf.pipes line _⟩

theorem pour (data : Bytes) (desk : Desk) (line : Line) : (st.pour data desk line).Leaves f (f line) := by
  unfold Stage.pour
  split
  · rfl
  · exact hf.deliver st st.out data desk line

theorem scan (desk : Desk) (line : Line) : (st.scan desk line).Leaves f (f line) := by
  unfold Stage.scan
  split
  · rfl
  · exact hf.read st .all desk line

theorem used (p : Prop) [Decidable p] (n : Nat) (line : Line) : f (if p then line.dropInput n else line) = f line := by
  split
  · exact hf.input line _
  · rfl

omit hf in
theorem map {α β : Type} {b : γ} (g : α → β) {r : Reply α} (h : Run.Leaves f b r) : Run.Leaves f b (r.map g) :=
  Run.Leaves.bind h fun _ _ => rfl

theorem relay (filter : Filter) (desk : Desk) (line : Line) : (st.relay filter desk line).Leaves f (f line) := by
  unfold Stage.relay
  dsimp only
  split
  · refine (hf.pour st _ desk line).bind fun (desk, delivery) line => ?_
    dsimp only
    split
    · exact map _ (hf.flood st _ desk line)
    · rfl
  · refine (hf.scan st desk line).bind fun (desk, answer) line => ?_
    dsimp only
    split
    · rfl
    · refine (hf.pour st _ desk line).bind fun (desk, delivery) line => ?_
      exact hf.used _ _ line

end Line.Aloof

def Action.invokes : Action → Bool
  | .invoke _ _ _ => true
  | _ => false

def Action.assigns : Action → Bool
  | .assign _ _ => true
  | _ => false

def Action.alters : Action → Bool
  | .files .shell request => request.alters
  | _ => false

theorem Line.Aloof.perform {γ : Type} {f : Line → γ} (hf : Aloof f) (st : Stage) (nested : Nested) (desk : Desk)
    (line : Line) {action : Action} (hInvokes : action.invokes = false) (hAssigns : action.assigns = false)
    (hAlters : action.alters = false) : (st.perform nested desk line action).Leaves f (f line) := by
  cases action with
  | write channel data =>
    cases channel with
    | out => exact map _ (hf.deliver st st.out data desk line)
    | err => exact map _ (hf.deliver st st.err data desk line)
  | flood data => exact hf.flood st data desk line
  | read amount => exact hf.read st amount desk line
  | relay filter => exact hf.relay st filter desk line
  | lookup key => rfl
  | assign key value => cases hAssigns
  | workDirectory => rfl
  | files storage request =>
    refine hf.serve line ?_
    rintro rfl
    exact hAlters
  | inquire side => rfl
  | pause =>
    unfold Stage.perform
    split
    · rfl
    · exact ⟨rfl, fun _ _ => rfl⟩
  | invoke file number script => cases hInvokes
  | consult name ask => exact hf.mocks line _

namespace Stage

variable (st : Stage) (nested : Nested) (desk : Desk) (line : Line)

theorem perform_leaves {action : Action} (hInvokes : action.invokes = false) (hAssigns : action.assigns = false) :
    (st.perform nested desk line action).Leaves Line.frame line.frame := by
  cases hAlters : action.alters with
  | false => exact (Line.aloof_rest.perform st nested desk line hInvokes hAssigns hAlters).comp Prod.fst
  | true =>
    cases action with
    | files storage request => exact line.frame_serve storage request
    | _ => cases hAlters

theorem perform_leaves_shelf {action : Action} (hInvokes : action.invokes = false)
    (hAlters : action.alters = false) :
    (st.perform nested desk line action).Leaves Line.shelf line.shelf := by
  cases hAssigns : action.assigns with
  | false => exact (Line.aloof_rest.perform st nested desk line hInvokes hAssigns hAlters).comp Prod.snd
  | true =>
    cases action with
    | assign key value => rfl
    | _ => cases hAssigns

theorem perform_leaves_status {action : Action} (hInvokes : action.invokes = false) :
    (st.perform nested desk line action).Leaves Line.status line.status := by
  cases hAssigns : action.assigns with
  | false =>
    have hFrame := st.perform_leaves nested desk line hInvokes hAssigns
    exact hFrame.comp Line.Frame.toStatus
  | true =>
    cases action with
    | assign key value => rfl
    | _ => cases hAssigns

@[simp] theorem status_close_board (fault : Option Fault) :
    (st.close fault desk line).board =
      line.board.complete st.isLast (fault.map (Failure.ofFault st.shown desk.log)) := rfl

theorem overlays_close (fault : Option Fault) : (st.close fault desk line).world.overlays = line.world.overlays := by
  simp [close]

theorem ground_close (fault : Option Fault) : (st.close fault desk line).world.ground = line.world.ground := by
  simp [close]

end Stage

end Pipework
