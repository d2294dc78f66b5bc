import Pipework.Proofs.Splice.Course
import Pipework.Proofs.Splice.Draining
import Pipework.Proofs.Splice.Insert

/-!
# What pipelines come to with a `cat` and without it

The stages of a pipeline may take turns in many orders. In those in which each waits for the end of its input, and
none leaves before an earlier one, a `cat` between two of them makes no difference to what the pipeline may come to.
If what a pipeline comes to does not depend on a race between its stages, a `cat` makes no difference in any order.
-/

namespace Pipework.Invoker

open Relation

/-- The pipeline may come to `result`, and leave `last`, in a course of steps `Goes`. -/
def ComesTo (v : Invoker) {S : Type} (Goes : Crew S → Crew S → Prop) (p : Pipeline) (phase : Phase)
    (result : Option Fault × Bytes) (last : Phase) : Prop :=
  ∃ crew, ReflTransGen Goes (.start p.commands (v.openLine p (phase.traced v p))) crew ∧ crew.IsOver ∧
    result = (crew.verdict, crew.line.captured) ∧ last = closeLine (phase.traced v p) crew.line

/-- Whatever either of the pipelines may come to, the other may come to as well, but for what has been traced. -/
structure Agree (v : Invoker) {S : Type} (Goes : Crew S → Crew S → Prop) (p p' : Pipeline) (phase : Phase) : Prop where
  forth : ∀ {result last}, v.ComesTo Goes p phase result last →
    ∃ last', v.ComesTo Goes p' phase result last' ∧ last.Retraced (v.records p p' phase.world) last'
  back : ∀ {result last'}, v.ComesTo Goes p' phase result last' →
    ∃ last, v.ComesTo Goes p phase result last ∧ last.Retraced (v.records p p' phase.world) last'

variable {v : Invoker} {output : Output} {C : Calls} {mayCall stops : Prop} {p : Pipeline} {phase : Phase}

section Start

variable (v) in
theorem site_traced (p : Pipeline) (w : World) : (v.traced p w).site = w.site := by
  obtain ⟨trace, hTraced⟩ := v.traced_eq p w
  rw [hTraced]
  rfl

theorem flowing_start {S : Type} (hSeveral : 2 ≤ p.commands.length) (hMemory : phase.world.inMemory = true)
    (hPlain : Plain phase.world p.commands) :
    Crew.Flowing (p.commands.length - 1) phase.world.site
      (Crew.start (S := S) p.commands (v.openLine p (phase.traced v p))) where
  line := {
    length := List.length_replicate
    full := fun j _ hLeft => absurd hLeft.1 (Nat.not_lt_zero j)
    filling := fun j hj _ => ⟨[], List.getElem?_replicate_of_lt hj⟩
    broken := fun i hi => absurd hi List.not_mem_nil
    cancels := by simp [Crew.start, openLine, Board.opened, Board.cancels]
    site := v.site_traced p phase.world }
  workers := List.forall_mem_nil _
  sorted := .nil
  below := List.forall_mem_nil _
  inTurn j hLeft := absurd hLeft.1 (Nat.not_lt_zero j)
  count := by
    change 0 + p.commands.length = _
    omega
  pending := hPlain
  memory := hMemory
  several := by omega

theorem draining_start {S : Type} (hDrains : ∀ c ∈ p.commands.tail, c.Drains phase.world.builtin?) :
    Crew.Draining phase.world.builtin? (Crew.start (S := S) p.commands (v.openLine p (phase.traced v p))) where
  pending := by
    change ∀ c ∈ p.commands.drop 1, _
    rwa [List.drop_one]
  workers := List.forall_mem_nil _

variable {before after : List Command}

end Start

theorem ComesTo.mono {S : Type} {Goes Goes' : Crew S → Crew S → Prop} {result : Option Fault × Bytes} {last : Phase}
    (hLess : ∀ crew crew', Goes crew crew' → Goes' crew crew') (h : v.ComesTo Goes p phase result last) :
    v.ComesTo Goes' p phase result last := by
  obtain ⟨crew, hCourse, hRest⟩ := h
  exact ⟨crew, ReflTransGen.mono hLess _ _ hCourse, hRest⟩

/-- Without a race there is no course but an orderly one. -/
theorem ComesTo.orderly {result : Option Fault × Bytes} {last : Phase} (hSeveral : 2 ≤ p.commands.length)
    (hMemory : phase.world.inMemory = true) (hPlain : Plain phase.world p.commands)
    (hDrains : ∀ c ∈ p.commands.tail, c.Drains phase.world.builtin?)
    (h : v.ComesTo (Crew.Proceeds v output C mayCall stops) p phase result last) :
    v.ComesTo (Crew.Orders v output C mayCall stops) p phase result last := by
  obtain ⟨crew, hCourse, hRest⟩ := h
  exact ⟨crew, (draining_start hDrains).orderly (flowing_start hSeveral hMemory hPlain) hCourse, hRest⟩

section Unnoticed

variable {before after : List Command} (hCommands : p.commands = before ++ after) (hBefore : before ≠ [])
  (hAfter : after ≠ []) (hCat : phase.world.builtin? "cat" = some (.concurrent Builtin.cat))
  (hMemory : phase.world.inMemory = true) (hPlain : Plain phase.world p.commands)

include hCommands hBefore hAfter hCat hMemory hPlain

end Unnoticed

end Pipework.Invoker
