import Pipework.Engine
import Pipework.Proofs.Stage.Frame

/-!
# What a launch does

Launching a command opens its files. It leaves the status of the pipeline, the scope and the overlays alone, and
the stage that it gives knows its place.
-/

namespace Pipework

namespace World.Aloof

variable {γ : Type} {f : World → γ} (hf : Aloof f)

include hf

theorem redirect (storage : Storage) (dir : String) (w : Wiring) (r : Redirection) (world : World) :
    f (w.redirect storage dir r world).2 = f world := by
  unfold Wiring.redirect
  split
  · split
    · rfl
    · rfl
    · exact hf world _ _
  · split
    · rfl
    · rfl
    · exact hf world _ _

theorem abandon (w : Wiring) (world : World) : f (w.abandon world) = f world := by
  rw [Wiring.abandon, releaseAll_eq, hf.closeAll]

theorem redirectAll (storage : Storage) (dir : String) (w : Wiring) (rs : List Redirection) (world : World) :
    f (w.redirectAll storage dir rs world).2 = f world := by
  induction rs generalizing w world with
  | nil => rfl
  | cons r rs ih =>
    have hFirst := hf.redirect storage dir w r world
    unfold Wiring.redirectAll
    cases hRedirect : w.redirect storage dir r world with
    | mk reply world' =>
      rw [hRedirect] at hFirst
      cases reply with
      | ok w' => exact (ih w' world').trans hFirst
      | error fault => exact (hf.abandon w world').trans hFirst

theorem launch (hInput : ∀ (w : World) (input : Bytes), f { w with input := input } = f w) (v : Invoker)
    (output : Output) (index : Nat) (isLast : Bool) (c : Command) (line : Line) :
    f (v.launch output index isLast c line).2.world = f line.world := by
  have hRedirected (storage : Storage) (source : Source) :=
    hf.redirectAll storage (v.directory line.world) (Wiring.initial source) c.redirections line.world
  unfold Invoker.launch
  dsimp only
  split
  · next fault world hRedirect => rw [← hRedirected, hRedirect]
  · next w world hRedirect =>
    have hWorld : f world = f line.world := by rw [← hRedirected, hRedirect]
    split
    · exact hWorld
    · split
      · exact (hf.abandon w world).trans hWorld
      · exact (hInput world _).trans hWorld

end World.Aloof

namespace World.Unseen

variable {f : World → World} (hf : Unseen f) (storage : Storage) (dir : String) (w : Wiring) (world : World)

include hf

theorem redirect (r : Redirection) :
    w.redirect storage dir r (f world) =
      ((w.redirect storage dir r world).1, f (w.redirect storage dir r world).2) := by
  unfold Wiring.redirect
  split
  · split
    · rfl
    · rfl
    · simp only [hf.serve]
  · split
    · rfl
    · rfl
    · simp only [hf.serve]

theorem refresh : w.refresh storage (f world) = w.refresh storage world := by
  unfold Wiring.refresh
  split
  · rw [hf.serve, hf.isHeld]
  · rfl

theorem abandon : w.abandon (f world) = f (w.abandon world) := by
  unfold Wiring.abandon
  rw [hf.closeAll, releaseAll_eq, releaseAll_eq]

theorem redirectAll (rs : List Redirection) :
    w.redirectAll storage dir rs (f world) =
      ((w.redirectAll storage dir rs world).1, f (w.redirectAll storage dir rs world).2) := by
  induction rs generalizing w world with
  | nil => simp [Wiring.redirectAll, hf.refresh]
  | cons r rs ih =>
    unfold Wiring.redirectAll
    rw [hf.redirect]
    cases w.redirect storage dir r world with
    | mk reply world' =>
      cases reply with
      | ok w' => exact ih w' world'
      | error fault => exact congrArg (Prod.mk (Except.error fault)) (hf.abandon w world')

end World.Unseen

namespace Invoker

variable (v : Invoker) (output : Output) (index : Nat) (isLast : Bool) (c : Command) (line : Line)

theorem line_launch :
    (v.launch output index isLast c line).2 = { line with world := (v.launch output index isLast c line).2.world } := by
  unfold launch
  dsimp only
  split
  · rfl
  · split
    · rfl
    · split <;> rfl

theorem overlays_launch : (v.launch output index isLast c line).2.world.overlays = line.world.overlays :=
  World.Aloof.launch World.overlays_serve (fun _ _ => rfl) v output index isLast c line

theorem ground_launch : (v.launch output index isLast c line).2.world.ground = line.world.ground :=
  World.Aloof.launch World.ground_serve (fun _ _ => rfl) v output index isLast c line

theorem frame_launch : (v.launch output index isLast c line).2.frame = line.frame := by
  have hOverlays := v.overlays_launch output index isLast c line
  have hGround := v.ground_launch output index isLast c line
  rw [v.line_launch output index isLast c line]
  simp [Line.frame, Line.status, hOverlays, hGround]

theorem status_launch : (v.launch output index isLast c line).2.status = line.status :=
  congrArg Line.Frame.toStatus (v.frame_launch output index isLast c line)

/-- A stage knows its place in the pipeline, where its output goes and the invocation that it belongs to. -/
theorem stage_launch {start : Launch} (h : (v.launch output index isLast c line).1 = .ok start) :
    start.stage.index = index ∧ start.stage.isLast = isLast ∧ start.stage.output = output ∧
      start.stage.overlay = v.overlay ∧ start.stage.context = v.context := by
  unfold launch at h
  dsimp only at h
  split at h
  · cases h
  · split at h
    · cases h
      exact ⟨rfl, rfl, rfl, rfl, rfl⟩
    · split at h
      · cases h
      · cases h
        exact ⟨rfl, rfl, rfl, rfl, rfl⟩

theorem log_launch {start : Launch} (h : (v.launch output index isLast c line).1 = .ok start) :
    start.desk.log = [] := by
  unfold launch at h
  dsimp only at h
  split at h
  · cases h
  · split at h
    · cases h
      rfl
    · split at h
      · cases h
      · cases h
        rfl

/-- Launching the commands from `c` on: `c` first, and if that has been launched, the others. -/
theorem launchAll_cons (nested : Nested) (running : List Activity) (rest : List Command) :
    v.launchAll nested output index running (c :: rest) line =
      match v.launch output index rest.isEmpty c line with
      | (.error fault, line) => (.aborted fault running, line)
      | (.ok start, line) =>
        if rest.isEmpty then (.complete running (start.run nested), line)
        else if start.inOrder then
          v.launchAll nested output (index + 1) running rest (start.run nested line).complete.2
        else v.launchAll nested output (index + 1) (running ++ [.fresh (start.run nested)]) rest line := by
  cases rest <;> rfl

theorem overlays_traced (p : Pipeline) (w : World) : (v.traced p w).overlays = w.overlays := by
  unfold traced
  split <;> rfl

theorem ground_traced (p : Pipeline) (w : World) : (v.traced p w).ground = w.ground := by
  unfold traced
  split <;> rfl

/-- The stage as which a builtin without redirections is launched. -/
def builtinLaunch (b : Builtin) : Launch :=
  let dir := v.directory line.world
  let source := if index = 0 then Source.host else .pipe
  ⟨b.inOrder,
    ⟨index, isLast, false, located dir c.render, source, none, .output, .errors, [], output, v.overlay,
      v.context⟩,
    b.task ⟨c.args, c.env, dir, source == .host⟩, ⟨.nothing, [], []⟩⟩

variable {c line} in
theorem launch_builtin {b : Builtin} (hBuiltin : line.world.builtin? (c.args.headD "") = some b)
    (hBare : c.redirections = []) :
    v.launch output index isLast c line = (.ok (v.builtinLaunch output index isLast c line b), line) := by
  unfold launch
  dsimp only
  rw [hBuiltin, hBare]
  rfl

end Invoker

end Pipework
