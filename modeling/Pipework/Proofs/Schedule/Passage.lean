import Pipework.Proofs.Schedule.Basic

/-!
# Passages

A passage is a course of a crew of which each step is recorded together with the crew that it found, and in which
the world is changed from outside only as is allowed.
-/

namespace Pipework

/-- What happened, each time with the crew as it was before. -/
abbrev Chronicle (S : Type) := List (Crew S × Event)

namespace Crew

/-- Steps of a crew one after the other. In between the world is changed from outside as `apart` allows. -/
inductive Passage (v : Invoker) (output : Output) (C : Calls) (mayCall : Prop) (apart : World → World → Prop)
    (first : Crew C.State) : Chronicle C.State → Crew C.State → Prop
  | start : Passage v output C mayCall apart first [] first
  | step {chronicle : Chronicle C.State} {crew crew' : Crew C.State} {event : Event}
      (h : Passage v output C mayCall apart first chronicle crew)
      (hStep : Step v output C mayCall crew event crew') :
    Passage v output C mayCall apart first (chronicle ++ [(crew, event)]) crew'
  | outside {chronicle : Chronicle C.State} {crew : Crew C.State} {world : World}
      (h : Passage v output C mayCall apart first chronicle crew) (hApart : apart crew.line.world world) :
    Passage v output C mayCall apart first chronicle (crew.within world)

variable {v : Invoker} {output : Output} {C : Calls} {mayCall : Prop} {apart : World → World → Prop}
  {first mid last : Crew C.State} {chronicle : Chronicle C.State}

theorem Course.append {events more : List Event} (h : Course v output C mayCall first events mid)
    (hMore : Course v output C mayCall mid more last) : Course v output C mayCall first (events ++ more) last := by
  induction h with
  | nil => exact hMore
  | step hStep hRest ih => exact .step hStep (ih hMore)
  | outside world hRest ih => exact .outside world (ih hMore)

theorem Passage.course (h : Passage v output C mayCall apart first chronicle last) :
    Course v output C mayCall first (chronicle.map Prod.snd) last := by
  induction h with
  | start => exact .nil
  | step h hStep ih =>
    rw [List.map_append]
    exact ih.append (.step hStep .nil)
  | @outside _ crew world h hApart ih =>
    have hOutside : Course v output C mayCall crew [] (crew.within world) := .outside world .nil
    simpa using ih.append hOutside

theorem Course.passage {events : List Event} (h : Course v output C mayCall mid events last)
    (hBefore : Passage v output C mayCall (fun _ _ => True) first chronicle mid) :
    ∃ more : Chronicle C.State, more.map Prod.snd = events ∧
      Passage v output C mayCall (fun _ _ => True) first (chronicle ++ more) last := by
  induction h generalizing chronicle with
  | nil => exact ⟨[], rfl, by simpa using hBefore⟩
  | @step crew crew' _ event events hStep hRest ih =>
    obtain ⟨more, hMore, hPassage⟩ := ih (hBefore.step hStep)
    refine ⟨(crew, event) :: more, by rw [List.map_cons, hMore], ?_⟩
    rwa [List.append_assoc] at hPassage
  | outside world hRest ih => exact ih (hBefore.outside trivial)

end Crew

end Pipework
