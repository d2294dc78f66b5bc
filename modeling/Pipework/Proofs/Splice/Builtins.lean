import Pipework.Builtin.Text
import Pipework.Proofs.Splice.Flow

/-!
# Builtins that terminate

The builtins on text and the standard builtins wait for nothing but the end of their input, and read all of it if any.
Of all of these only `cd` has to end before the next stage is launched.
-/

namespace Pipework

theorem Program.IsPlain.bind {α β : Type} {p : Program α} {f : α → Program β} (h : p.IsPlain)
    (hf : ∀ a, (f a).IsPlain) : (p.bind f).IsPlain := by
  induction p with
  | done a => exact hf a
  | act action next ih => exact ⟨h.1, fun answer => ih answer (h.2 answer)⟩

namespace Task

/-- The task waits for nothing but the end of its input, of which it takes everything if any. -/
def IsPlain {α : Type} (t : Task α) : Prop := Program.IsPlain (α := Except Fault α) t

variable {α β : Type}

theorem plain_pure (a : α) : IsPlain (pure a : Task α) := trivial

theorem plain_throw (fault : Fault) : IsPlain (throw fault : Task α) := trivial

theorem IsPlain.bind {t : Task α} {f : α → Task β} (h : t.IsPlain) (hf : ∀ a, (f a).IsPlain) :
    (t >>= f).IsPlain := by
  refine Program.IsPlain.bind h fun result => ?_
  cases result with
  | ok a => exact hf a
  | error fault => trivial

theorem plain_perform {action : Action} (h : action.isPlain = true) : (perform action).IsPlain :=
  ⟨h, fun _ => trivial⟩

theorem plain_check (fault : Option Fault) : (check fault).IsPlain := by
  cases fault <;> trivial

theorem plain_write (channel : Channel) (data : Bytes) : (write channel data).IsPlain :=
  (plain_perform rfl).bind plain_check

theorem plain_pour (data : Bytes) : (pour data).IsPlain := by
  unfold pour
  split
  · exact plain_pure ()
  · exact plain_write .out data

theorem plain_relay : relay.IsPlain :=
  (plain_perform rfl).bind fun answer => plain_check answer.2

theorem plain_readAll : readAll.IsPlain :=
  (plain_perform rfl).bind fun answer => (plain_check answer.2).bind fun _ => plain_pure answer.1

end Task

namespace Builtin

open Pipework.Task

theorem plain_catFile (p : Proc) (name : String) : (catFile p name).IsPlain := by
  unfold catFile
  split
  · exact plain_relay
  · refine (plain_perform rfl).bind fun answer => ?_
    cases answer with
    | ok feed => exact plain_pour feed.ready
    | error fault => exact plain_throw _

theorem plain_catFiles (p : Proc) (names : List String) : (catFiles p names).IsPlain := by
  induction names with
  | nil => trivial
  | cons name names ih => exact (plain_catFile p name).bind fun _ => ih

theorem plain_cat (p : Proc) : (cat p).IsPlain := by
  unfold cat
  split
  · exact plain_relay
  · exact plain_catFiles p _

theorem plain_closeAll (data : Bytes) (paths : List String) : (closeAll data paths).IsPlain := by
  induction paths with
  | nil => trivial
  | cons path paths ih => exact (plain_perform rfl).bind fun _ => ih

theorem plain_openAll (atEnd : Bool) (opened paths : List String) : (openAll atEnd opened paths).IsPlain := by
  induction paths generalizing opened with
  | nil => trivial
  | cons path paths ih =>
    refine (plain_perform rfl).bind fun answer => ?_
    cases answer with
    | ok feed => exact ih (opened ++ [path])
    | error fault => exact (plain_closeAll [] opened).bind fun _ => plain_throw _

theorem plain_tee (p : Proc) : (tee p).IsPlain := by
  unfold tee
  split
  all_goals
    exact (plain_openAll _ [] _).bind fun _ => (plain_perform rfl).bind fun answer =>
      (plain_closeAll answer.1 _).bind fun _ => plain_check answer.2

theorem plain_tr (p : Proc) : (tr p).IsPlain := by
  unfold tr
  split
  · exact plain_throw _
  · exact plain_readAll.bind fun data => plain_pour _

theorem plain_destination (p : Proc) (dir : String) : (destination p dir).IsPlain := by
  unfold destination
  split
  · exact plain_pure _
  · split
    · exact plain_pure _
    · refine (plain_perform rfl).bind fun answer => ?_
      cases answer with
      | ok base => exact plain_pure _
      | error fault => exact plain_throw _

theorem plain_cd (p : Proc) : (cd p).IsPlain := by
  unfold cd
  split
  · refine (plain_destination p _).bind fun dir => (plain_perform rfl).bind fun answer => ?_
    cases answer with
    | ok feed => exact plain_perform rfl
    | error fault => exact plain_throw _
  · exact plain_throw _
  · exact plain_throw _

theorem plain_of_mem {name : String} {b : Builtin} (h : (name, b) ∈ text ++ standard) (p : Proc) :
    (b.task p).IsPlain := by
  rcases List.mem_append.mp h with hText | hStandard
  · simp only [text, List.mem_cons, List.not_mem_nil, or_false, Prod.mk.injEq] at hText
    rcases hText with ⟨-, rfl⟩ | ⟨-, rfl⟩ | ⟨-, rfl⟩
    · exact plain_cat p
    · exact plain_tee p
    · exact plain_tr p
  · rcases List.mem_append.mp hStandard with hNamed | hLevel
    · simp only [List.mem_cons, List.not_mem_nil, or_false, Prod.mk.injEq] at hNamed
      rcases hNamed with ⟨-, rfl⟩ | ⟨-, rfl⟩ | ⟨-, rfl⟩
      · exact plain_cd p
      · exact plain_pure ()
      · exact plain_write .out (line p)
    · obtain ⟨level, -, hLevel⟩ := List.mem_map.mp hLevel
      cases hLevel
      exact plain_write .err _

theorem concurrent_of_mem {name : String} {b : Builtin} (h : (name, b) ∈ text ++ standard) (hName : name ≠ "cd") :
    b.inOrder = false := by
  rcases List.mem_append.mp h with hText | hStandard
  · simp only [text, List.mem_cons, List.not_mem_nil, or_false, Prod.mk.injEq] at hText
    rcases hText with ⟨-, rfl⟩ | ⟨-, rfl⟩ | ⟨-, rfl⟩ <;> rfl
  · rcases List.mem_append.mp hStandard with hNamed | hLevel
    · simp only [List.mem_cons, List.not_mem_nil, or_false, Prod.mk.injEq, hName, false_and, false_or] at hNamed
      rcases hNamed with ⟨-, rfl⟩ | ⟨-, rfl⟩ <;> rfl
    · obtain ⟨level, -, hLevel⟩ := List.mem_map.mp hLevel
      cases hLevel
      rfl

end Builtin

end Pipework
