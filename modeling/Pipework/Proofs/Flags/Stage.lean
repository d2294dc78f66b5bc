import Pipework.Proofs.Flags.Hidden
import Pipework.Proofs.Flags.Later

/-!
# Stages that go in step

A stage that does not see a variable does the same with it and without it: each of its actions has the same
answer and leaves the same line but for the variable. It loses step only where it ends, if that is a failure that
ends the whole pipeline in one of the two runs.
-/

namespace Pipework

namespace Hiding

variable (H : Hiding)

/-- Without its variable no failure ends the whole pipeline. -/
def board (b : Board) : Board := { b with pipefail := b.pipefail && H.key != pipefailVar }

def line (l : Line) : Line := { l with world := H.world l.world, board := H.board l.board }

/-- A failure ends the whole pipeline, in the first of two runs only. -/
def Lost (l : Line) : Prop := H.key = pipefailVar ∧ l.board.cancels = true

def Fits (l : Line) : Prop := H.Sound l.world l.scope ∧ ¬H.Lost l

def shadow : Run.Shadow Line := ⟨H.line, H.Fits, H.Lost⟩

variable {H} {line : Line}

theorem Lost.later {l l' : Line} (h : H.Lost l) (hLater : l.Later l') : H.Lost l' := ⟨h.1, hLater.cancels h.2⟩

theorem cancels_board {l : Line} (h : ¬H.Lost l) : (H.board l.board).cancels = l.board.cancels := by
  unfold board Board.cancels
  dsimp only
  by_cases hKey : H.key = pipefailVar
  · have hKept : (l.board.pipefail && l.board.first.isSome) = false := eq_false_of_ne_true fun hLost => h ⟨hKey, hLost⟩
    rw [hKey, bne_self_eq_false, Bool.and_false, Bool.false_and, hKept]
  · rw [bne_iff_ne.mpr hKey, Bool.and_true]

theorem serve_line (line : Line) (storage : Storage) (request : FileRequest) :
    (H.line line).world.serve storage request =
      ((line.world.serve storage request).1, H.world (line.world.serve storage request).2) :=
  unseen.serve line.world storage request

theorem Fits.serve (h : H.Fits line) (storage : Storage) (request : FileRequest) :
    H.Fits { line with world := (line.world.serve storage request).2 } := ⟨h.1.serve storage request, h.2⟩

end Hiding

theorem Reply.map_inStep {α β : Type} (f : α → β) {H : Hiding} {r r' : Reply α}
    (h : Run.InStep H.shadow (fun _ _ => False) r r') :
    Run.InStep H.shadow (fun _ _ => False) (r.map f) (r'.map f) :=
  h.bind (fun _ _ hFits => .of_done hFits rfl) fun _ _ hBad => hBad.elim

namespace Stage

variable {H : Hiding} {st : Stage} {line : Line} (hFits : H.Fits line)

include hFits

theorem deliver_inStep (sink : Sink) (data : Bytes) (desk : Desk) :
    (st.deliver sink data desk line).InStep H.shadow (fun _ _ => False) (st.deliver sink data desk (H.line line)) := by
  cases sink with
  | null => exact .of_done hFits rfl
  | errors => exact .of_done hFits rfl
  | file i =>
    unfold deliver
    dsimp only
    split
    · exact .of_done hFits rfl
    · rw [Hiding.serve_line]
      exact .of_done (hFits.serve _ _) rfl
  | output =>
    obtain ⟨index, isLast, isProcess, shown, source, path, out, err, readings, output, overlay, context⟩ := st
    unfold deliver
    cases isLast with
    | false =>
      have hSame : (H.line line).broken = line.broken := rfl
      dsimp only
      rw [hSame]
      by_cases hBroken : (decide (data ≠ []) && line.broken.contains index) = true
      · simp only [Bool.not_false, if_true, hBroken]
        exact .of_done hFits rfl
      · simp only [Bool.not_false, if_true, hBroken]
        exact .of_done hFits rfl
    | true =>
      cases output with
      | host => exact .of_done hFits rfl
      | capture => exact .of_done hFits rfl
      | consumer =>
        have hSame : (H.line line).stopped = line.stopped := rfl
        dsimp only
        rw [hSame]
        by_cases hEmpty : (decide (data = []) && isProcess) = true
        · simp only [Bool.not_true, Bool.false_eq_true, hEmpty, if_true, if_false]
          exact .of_done hFits rfl
        · by_cases hStopped : line.stopped = true
          · simp only [Bool.not_true, Bool.false_eq_true, hEmpty, hStopped, if_false, if_true]
            exact .of_done hFits rfl
          · simp only [Bool.not_true, Bool.false_eq_true, hEmpty, hStopped, if_false]
            exact .of_wait hFits rfl fun signal line hFits => .of_done hFits rfl

theorem flood_inStep (data : Bytes) (desk : Desk) :
    (st.flood data desk line).InStep H.shadow (fun _ _ => False) (st.flood data desk (H.line line)) := by
  obtain ⟨index, isLast, isProcess, shown, source, path, out, err, readings, output, overlay, context⟩ := st
  unfold flood
  dsimp only
  by_cases hOut : out ≠ .output
  · simp only [hOut, ne_eq, not_false_eq_true, if_true]
    exact .of_wait hFits rfl fun signal line hFits => .of_done hFits rfl
  · simp only [hOut, if_false]
    cases isLast with
    | false => exact .of_wait hFits rfl fun signal line hFits => .of_done hFits rfl
    | true =>
      cases output with
      | host => exact .of_wait hFits rfl fun signal line hFits => .of_done hFits rfl
      | capture => exact .of_wait hFits rfl fun signal line hFits => .of_done hFits rfl
      | consumer =>
        have hSame : (H.line line).stopped = line.stopped := rfl
        dsimp only
        rw [hSame]
        by_cases hStopped : line.stopped = true
        · simp only [Bool.not_true, Bool.false_eq_true, hStopped, if_false, if_true]
          exact .of_done hFits rfl
        · simp only [Bool.not_true, Bool.false_eq_true, hStopped, if_false]
          exact .of_wait hFits rfl fun signal line hFits => .of_done hFits rfl

theorem read_inStep (amount : Amount) (desk : Desk) :
    (st.read amount desk line).InStep H.shadow (fun _ _ => False) (st.read amount desk (H.line line)) := by
  have hPipe (line : Line) (i : Nat) : (H.line line).pipe i = line.pipe i := rfl
  unfold read
  dsimp only
  cases st.source with
  | host => exact .of_done hFits rfl
  | feed => exact .of_done hFits rfl
  | pipe =>
    simp only [hPipe]
    cases (line.pipe (st.index - 1)).take? amount with
    | some answer => exact .of_done hFits rfl
    | none => exact .of_wait hFits rfl fun signal line hFits => .of_done hFits rfl

theorem pour_inStep (data : Bytes) (desk : Desk) :
    (st.pour data desk line).InStep H.shadow (fun _ _ => False) (st.pour data desk (H.line line)) := by
  unfold pour
  split
  · exact .of_done hFits rfl
  · exact deliver_inStep hFits st.out data desk

theorem scan_inStep (desk : Desk) :
    (st.scan desk line).InStep H.shadow (fun _ _ => False) (st.scan desk (H.line line)) := by
  unfold scan
  split
  · exact .of_done hFits rfl
  · exact read_inStep hFits .all desk

theorem relay_inStep (filter : Filter) (desk : Desk) :
    (st.relay filter desk line).InStep H.shadow (fun _ _ => False) (st.relay filter desk (H.line line)) := by
  have hFeed : st.inputFeed desk (H.line line) = st.inputFeed desk line := rfl
  unfold relay
  rw [hFeed]
  dsimp only
  split
  · refine (pour_inStep hFits _ desk).bind (fun (desk, delivery) line hFits => ?_) fun _ _ hBad => hBad.elim
    dsimp only
    split
    · exact Reply.map_inStep _ (flood_inStep hFits _ desk)
    · exact .of_done hFits rfl
  · refine (scan_inStep hFits desk).bind (fun (desk, answer) line hFits => ?_) fun _ _ hBad => hBad.elim
    cases answer with
    | none => exact .of_done hFits rfl
    | some answer =>
      refine (pour_inStep hFits _ desk).bind (fun (desk, delivery) line hFits => ?_) fun _ _ hBad => hBad.elim
      by_cases hHost : st.source = .host
      · simp only [if_pos hHost]
        exact .of_done hFits rfl
      · simp only [if_neg hHost]
        exact .of_done hFits rfl

theorem perform_inStep (nested : Nested) (desk : Desk) {action : Action}
    (hAction : action.Avoids H.key) :
    (st.perform nested desk line action).InStep H.shadow (fun _ _ => False)
      (st.perform nested desk (H.line line) action) := by
  cases action with
  | write channel data =>
    cases channel with
    | out => exact Reply.map_inStep _ (deliver_inStep hFits st.out data desk)
    | err => exact Reply.map_inStep _ (deliver_inStep hFits st.err data desk)
  | flood data => exact flood_inStep hFits data desk
  | read amount => exact read_inStep hFits amount desk
  | relay filter => exact relay_inStep hFits filter desk
  | lookup key =>
    have hValue := Hiding.lookup_world (H := H) line.world st.overlay hAction
    dsimp only [perform]
    rw [← hValue]
    exact .of_done hFits rfl
  | assign key value =>
    have hKey : key ≠ H.key := hAction
    have hOrdered : Table.Ordered (line.world.overlay st.overlay) :=
      Hiding.mem_overlay .nil hFits.1.ordered st.overlay
    have hOverlay : (H.line line).world.overlay st.overlay = Table.erase H.key (line.world.overlay st.overlay) :=
      Hiding.overlay_world line.world st.overlay
    have hScope : (H.line line).scope = line.scope := rfl
    dsimp only [perform, Scope.assign]
    rw [hOverlay, hScope, Scope.save_erase _ _ hKey, ← Table.erase_assign hKey _ hOrdered]
    refine .of_done ⟨hFits.1.setOverlay ?_ (hOrdered.assign key _) ?_, hFits.2⟩ ?_
    · rw [Scope.prior?_save, if_neg (Ne.symm hKey)]
      exact hFits.1.scope
    · rw [Table.find?_assign, if_neg (Ne.symm hKey)]
    · exact congrArg
        (fun world => { H.line line with world := world, scope := line.scope.save (line.world.overlay st.overlay) key })
        (Hiding.setOverlay_world line.world st.overlay _)
  | workDirectory => exact .of_done hFits rfl
  | files storage request =>
    dsimp only [perform]
    rw [Hiding.serve_line]
    exact .of_done (hFits.serve storage request) rfl
  | inquire side => exact .of_done hFits rfl
  | pause =>
    have hSame : (H.line line).canceled = line.canceled := rfl
    dsimp only [perform]
    rw [hSame]
    by_cases hCanceled : line.canceled = true
    · rw [if_pos hCanceled, if_pos hCanceled]
      exact .of_done hFits rfl
    · rw [if_neg hCanceled, if_neg hCanceled]
      exact .of_wait hFits rfl fun signal line hFits => .of_done hFits rfl
  | invoke file number script => exact hAction.elim
  | consult name ask => exact .of_done hFits rfl

omit hFits in
theorem close_line {fault : Option Fault} {desk : Desk} (hKept : ¬H.Lost (st.close fault desk line)) :
    st.close fault desk (H.line line) = H.line (st.close fault desk line) := by
  have hBoard (isLast : Bool) (result : Option Failure) :
      (H.board line.board).complete isLast result = H.board (line.board.complete isLast result) := rfl
  have hCancels := Hiding.cancels_board hKept
  unfold close at hCancels ⊢
  dsimp only [Hiding.line] at hCancels ⊢
  rw [Hiding.unseen.closeAll, World.releaseAll_eq, World.releaseAll_eq, hBoard, hCancels]

theorem fits_close {fault : Option Fault} {desk : Desk} (hKept : ¬H.Lost (st.close fault desk line)) :
    H.Fits (st.close fault desk line) := by
  refine ⟨?_, hKept⟩
  unfold close
  dsimp only
  rw [World.releaseAll_eq]
  exact hFits.1.of_tables (World.tables_serve.closeAll _ _)

theorem closed_inStep (fault : Option Fault) (desk : Desk) :
    (Run.done () (st.close fault desk line)).InStep H.shadow (fun _ => H.Lost)
      (.done () (st.close fault desk (H.line line))) := by
  by_cases hLost : H.Lost (st.close fault desk line)
  · exact .lost hLost
  · exact .of_done (fits_close hFits hLost) (close_line hLost)

theorem run_inStep (nested : Nested) {task : Program (Except Fault Unit)} (hTask : task.Avoids H.key) (desk : Desk) :
    (st.run nested task desk line).InStep H.shadow (fun _ => H.Lost) (st.run nested task desk (H.line line)) := by
  induction task generalizing desk line with
  | done result => exact closed_inStep hFits _ desk
  | act action next ih =>
    unfold run
    refine (perform_inStep hFits nested desk hTask.1).bind (fun x line hFits => ?_) fun _ _ hBad => hBad.elim
    obtain ⟨desk, answer⟩ := x
    cases answer with
    | some answer => exact ih answer hFits (hTask.2 answer) desk
    | none => exact closed_inStep hFits _ desk

end Stage

namespace Invoker

variable {H : Hiding} {v : Invoker} {line : Line} {c : Command} {output : Output} {index : Nat} {isLast : Bool}

theorem start_world {world : World} {scope : Scope} (hSound : H.Sound world scope) {canceled : Bool} {dir : String}
    (hBlind : Host.start v.programs world.host canceled dir c.args ((v.processEnv world c).erase H.key) =
      Host.start v.programs world.host canceled dir c.args (v.processEnv world c)) :
    Host.start v.programs (H.world world).host canceled dir c.args (v.processEnv (H.world world) c) =
      Host.start v.programs world.host canceled dir c.args (v.processEnv world c) := by
  have hPath : (world.host.env.erase H.key).find? "PATH" = world.host.env.find? "PATH" := by
    rw [Table.find?_erase, if_neg H.ne_path.symm]
  refine (Host.start_env v.programs world.host hPath canceled dir c.args _).trans ?_
  rcases Hiding.processEnv_world hSound v c with hSame | hErased
  · rw [hSame]
  · rw [hErased, hBlind]

theorem launch_line (hFits : H.Fits line) (hc : v.Ignores H.key output index isLast c line) :
    v.launch output index isLast c (H.line line) =
      ((v.launch output index isLast c line).1, H.line (v.launch output index isLast c line).2) := by
  have hWorld : (H.line line).world = H.world line.world := rfl
  have hBuiltin (name : String) : (H.world line.world).builtin? name = line.world.builtin? name := rfl
  have hBlind := hc.blind
  unfold launch
  rw [hWorld, Hiding.directory_world]
  simp only [hBuiltin, Hiding.unseen.redirectAll]
  cases hFound : line.world.builtin? (c.args.headD "") with
  | some b =>
    cases (Wiring.initial (if index = 0 then Source.host else .pipe)).redirectAll
        (if (some b).isSome then Storage.shell else .host) (v.directory line.world) c.redirections line.world with
    | mk reply world => cases reply <;> rfl
  | none =>
    have hTables := World.tables_serve.redirectAll .host (v.directory line.world)
      (Wiring.initial (if index = 0 then Source.host else .pipe)) c.redirections line.world
    dsimp only [Option.isSome_none]
    rw [if_neg Bool.false_ne_true]
    cases hRedirected : (Wiring.initial (if index = 0 then Source.host else .pipe)).redirectAll .host
        (v.directory line.world) c.redirections line.world with
    | mk reply world =>
      rw [hRedirected] at hTables
      cases reply with
      | error fault => rfl
      | ok w =>
        have hStart := start_world (hFits.1.of_tables hTables) (hBlind hFound w world hRedirected)
        have hCanceled : (H.line line).canceled = line.canceled := rfl
        obtain ⟨source, feed, path, out, err, handles, readings⟩ := w
        dsimp only
        rw [hCanceled, hStart]
        cases Host.start v.programs world.host line.canceled (v.directory line.world) c.args (v.processEnv world c) with
        | error fault =>
          dsimp only
          rw [Hiding.unseen.abandon]
          rfl
        | ok task => cases source <;> rfl

theorem fits_launch (hFits : H.Fits line) (output : Output) (index : Nat) (isLast : Bool) :
    H.Fits (v.launch output index isLast c line).2 := by
  have hLine := v.line_launch output index isLast c line
  have hScope : (v.launch output index isLast c line).2.scope = line.scope := by rw [hLine]
  have hBoard : (v.launch output index isLast c line).2.board = line.board := by rw [hLine]
  refine ⟨?_, fun hLost => hFits.2 ⟨hLost.1, hBoard ▸ hLost.2⟩⟩
  rw [hScope]
  exact hFits.1.of_tables (World.tables_serve.launch (fun _ _ => rfl) v output index isLast c line)

end Invoker

end Pipework
