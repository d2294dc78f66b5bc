import Mathlib.Data.List.Nodup
import Pipework.Proofs.Files.Address
import Pipework.Proofs.Schedule.Status

/-!
# Pipelines that send to a file

One stage of a pipeline addresses a file; the others leave the files in memory alone. In whatever order the
stages act and end, the file holds what was said to it when the pipeline is over.
-/

namespace Pipework

namespace Crew

/-- What happens to a crew whose stage `k` writes to the file at `p`, with what that stage has said so far. The
files in memory are changed by nobody else, and the stage comes to its end by itself. -/
inductive Sending (v : Invoker) (output : Output) (C : Calls) (mayCall : Prop) (p : Place) (appends : Bool) (k : Nat)
    (first : Crew C.State) : Bytes → Crew C.State → Prop
  | start : Sending v output C mayCall p appends k first [] first
  | launch {b : Bytes} {crew crew' : Crew C.State} {c : Command} {rest : List Command}
      (h : Sending v output C mayCall p appends k first b crew) (hPending : crew.pending = c :: rest)
      (hAddresses : v.Addresses crew.line.world p appends c)
      (hStep : Step v output C mayCall crew (.launched k) crew') :
    Sending v output C mayCall p appends k first b crew'
  | turn {b said : Bytes} {crew : Crew C.State} {before after : List (Worker C.State)} {w : Worker C.State}
      {work : Work C.State} {line : Line} (h : Sending v output C mayCall p appends k first b crew)
      (hWorkers : crew.workers = before ++ w :: after) (hIndex : w.stage.index = k)
      (hTells : Tells C mayCall w.stage (w.work, crew.line) said (work, line)) :
    Sending v output C mayCall p appends k first (b ++ said)
      { crew with line := line, workers := before ++ { w with work := work } :: after }
  | finish {b : Bytes} {crew : Crew C.State} {before after : List (Worker C.State)} {w : Worker C.State}
      {result : Except Fault Unit} {desk : Desk} (h : Sending v output C mayCall p appends k first b crew)
      (hWorkers : crew.workers = before ++ w :: after) (hIndex : w.stage.index = k)
      (hWork : w.work = .ready (.done result) desk) :
    Sending v output C mayCall p appends k first b
      { crew with line := w.stage.close (endFault result) desk crew.line, workers := before ++ after }
  | other {b : Bytes} {crew crew' : Crew C.State} {event : Event}
      (h : Sending v output C mayCall p appends k first b crew) (hStep : Step v output C mayCall crew event crew')
      (hOther : event.stage? ≠ some k) (hShelf : crew'.line.shelf = crew.line.shelf) :
    Sending v output C mayCall p appends k first b crew'
  | outside {b : Bytes} {crew : Crew C.State} (h : Sending v output C mayCall p appends k first b crew) (world : World)
      (hShelf : world.shelf = crew.line.shelf) :
    Sending v output C mayCall p appends k first b (crew.within world)

/-- How far the crew has come with what stage `k` sends to the file at `p`, which `b` has been said to. The file is
in the tree `t` before it is opened, and holds `base` then. -/
inductive Sent {S : Type} (t : FileTree) (p : Place) (base : Bytes) (k : Nat) (crew : Crew S) : Bytes → Prop
  | before (hLaunched : ¬ k < crew.launched) (hShelf : crew.line.shelf = (true, t)) : Sent t p base k crew []
  | during {b : Bytes} {w : Worker S} (hw : w ∈ crew.workers) (hIndex : w.stage.index = k)
      (hWrites : Writes t p base w.stage w.work b crew.line.shelf) : Sent t p base k crew b
  | after {b : Bytes} {t' : FileTree} (hLaunched : k < crew.launched) (hGone : ∀ w ∈ crew.workers, w.stage.index ≠ k)
      (hShelf : crew.line.shelf = (true, t')) (hBecomes : t.Becomes p (base ++ b) t') : Sent t p base k crew b

variable {v : Invoker} {output : Output} {C : Calls} {mayCall : Prop} {p : Place} {appends : Bool} {k n : Nat}
  {s : Line.Status} {events : List Event} {first crew crew' : Crew C.State} {b : Bytes} {t : FileTree} {base : Bytes}

theorem Step.other {event : Event} (hStep : Step v output C mayCall crew event crew') (h : event.stage? ≠ some k) :
    (∀ w, w.stage.index = k → (w ∈ crew'.workers ↔ w ∈ crew.workers)) ∧
      (k < crew'.launched ↔ k < crew.launched) := by
  cases hStep with
  | @launch c rest start line hPending hRefusal hOrder hLaunch =>
    have hIndex := (v.stage_launch output crew.launched rest.isEmpty c crew.line (by rw [hLaunch])).1
    have hNot : crew.launched ≠ k := by simpa [Event.stage?] using h
    refine ⟨?_, ?_⟩
    · intro w hw
      have hOther : w ≠ start.worker := by
        rintro rfl
        exact hNot (hIndex.symm.trans hw)
      simp [hOther]
    · change k < crew.launched + 1 ↔ _
      omega
  | refuse hPending hRefusal hOrder hLaunch => exact ⟨fun _ _ => Iff.rfl, Iff.rfl⟩
  | @act before after w work line hWorkers hActs =>
    have hNot : w.stage.index ≠ k := by simpa [Event.stage?] using h
    refine ⟨?_, Iff.rfl⟩
    intro w' hw'
    rw [hWorkers]
    grind
  | @finish before after w result line hWorkers hActs =>
    have hNot : w.stage.index ≠ k := by simpa [Event.stage?] using h
    refine ⟨?_, Iff.rfl⟩
    intro w' hw'
    rw [hWorkers]
    grind
  | stop => exact ⟨fun _ _ => Iff.rfl, Iff.rfl⟩

theorem Course.concat {event : Event} (h : Course v output C mayCall first events crew)
    (hStep : Step v output C mayCall crew event crew') :
    Course v output C mayCall first (events ++ [event]) crew' := by
  induction h with
  | nil => exact .step hStep .nil
  | step hFirst hRest ih => exact .step hFirst (ih hStep)
  | outside world hRest ih => exact .outside world (ih hStep)

theorem Course.within (h : Course v output C mayCall first events crew) (world : World) :
    Course v output C mayCall first events (crew.within world) := by
  induction h with
  | nil => exact .outside world .nil
  | step hFirst hRest ih => exact .step hFirst ih
  | outside world' hRest ih => exact .outside world' ih

namespace Sent

theorem other {event : Event} (h : Sent t p base k crew b) (hStep : Step v output C mayCall crew event crew')
    (hOther : event.stage? ≠ some k) (hSame : crew'.line.shelf = crew.line.shelf) : Sent t p base k crew' b := by
  obtain ⟨hWorkers, hLaunches⟩ := hStep.other hOther
  cases h with
  | before hLaunched hShelf => exact .before (mt hLaunches.mp hLaunched) (hSame.trans hShelf)
  | @during _ w hw hIndex hWrites => exact .during ((hWorkers w hIndex).mpr hw) hIndex (hSame ▸ hWrites)
  | after hLaunched hGone hShelf hBecomes =>
    refine .after (hLaunches.mpr hLaunched) ?_ (hSame.trans hShelf) hBecomes
    intro w hw hIndex
    exact hGone w ((hWorkers w hIndex).mp hw) hIndex

theorem within (h : Sent t p base k crew b) {world : World} (hSame : world.shelf = crew.line.shelf) :
    Sent t p base k (crew.within world) b := by
  cases h with
  | before hLaunched hShelf => exact .before hLaunched (hSame.trans hShelf)
  | during hw hIndex hWrites =>
    have hShelf : (crew.within world).line.shelf = crew.line.shelf := hSame
    exact .during hw hIndex (hShelf ▸ hWrites)
  | after hLaunched hGone hShelf hBecomes => exact .after hLaunched hGone (hSame.trans hShelf) hBecomes

theorem launch {c : Command} {rest : List Command} (hTally : Tally n s events crew)
    (h : Sent t p (if appends then t.content p else []) k crew b) (hWritable : t.Writable p)
    (hPending : crew.pending = c :: rest) (hAddresses : v.Addresses crew.line.world p appends c)
    (hStep : Step v output C mayCall crew (.launched k) crew') :
    Sent t p (if appends then t.content p else []) k crew' b := by
  cases hStep with
  | @launch c' rest' start line hPending' hRefusal hOrder hLaunch =>
    obtain ⟨rfl, rfl⟩ := List.cons.inj (hPending.symm.trans hPending')
    cases h with
    | before hLaunched hShelf =>
      have hIndex := (v.stage_launch output crew.launched rest.isEmpty c crew.line (by rw [hLaunch])).1
      refine .during (List.mem_append_right _ List.mem_cons_self) hIndex ?_
      exact hAddresses.launch hShelf hWritable hLaunch
    | during hw hIndex hWrites => exact absurd hIndex (hTally.index_lt hw).ne
    | after hLaunched hGone hShelf hBecomes => exact absurd hLaunched (Nat.lt_irrefl _)

theorem writes (hTally : Tally n s events crew) {before after : List (Worker C.State)} {w : Worker C.State}
    (hWorkers : crew.workers = before ++ w :: after) (h : Sent t p base w.stage.index crew b) :
    Writes t p base w.stage w.work b crew.line.shelf := by
  have hMem : w ∈ crew.workers := hWorkers ▸ List.mem_append_right before List.mem_cons_self
  cases h with
  | before hLaunched hShelf => exact absurd (hTally.index_lt hMem) hLaunched
  | @during _ w' hw' hIndex hWrites =>
    -- No two stages at work have the same number.
    obtain rfl | hOther : w' = w ∨ w' ∈ before ++ after := by
      rw [hWorkers] at hw'
      grind
    · exact hWrites
    · exact absurd hIndex (hTally.ne_of_mem hWorkers hOther)
  | after hLaunched hGone hShelf hBecomes => exact absurd rfl (hGone w hMem)

end Sent

namespace Sending

theorem course (h : Sending v output C mayCall p appends k first b crew) :
    ∃ events, Course v output C mayCall first events crew := by
  induction h with
  | start => exact ⟨[], .nil⟩
  | launch h hPending hAddresses hStep ih =>
    obtain ⟨events, hCourse⟩ := ih
    exact ⟨_, hCourse.concat hStep⟩
  | turn h hWorkers hIndex hTells ih =>
    obtain ⟨events, hCourse⟩ := ih
    exact ⟨_, hCourse.concat (.act hWorkers hTells.acts)⟩
  | @finish b crew before after w result desk h hWorkers hIndex hWork ih =>
    obtain ⟨events, hCourse⟩ := ih
    have hActs : Acts C mayCall w.stage (.on w.work, crew.line) (w.stage.closed (endFault result) desk crew.line) :=
      hWork ▸ .finish
    exact ⟨_, hCourse.concat (.finish hWorkers hActs)⟩
  | other h hStep hOther hShelf ih =>
    obtain ⟨events, hCourse⟩ := ih
    exact ⟨_, hCourse.concat hStep⟩
  | outside h world hShelf ih =>
    obtain ⟨events, hCourse⟩ := ih
    exact ⟨events, hCourse.within world⟩

theorem sent (h : Sending v output C mayCall p appends k first b crew) (hTally : Tally n s [] first)
    (hLaunched : first.launched = 0) (hShelf : first.line.shelf = (true, t)) (hWritable : t.Writable p) :
    Sent t p (if appends then t.content p else []) k crew b := by
  -- Induction along the course. A step of stage `k` finds its writer by the number, which the tally keeps unique.
  induction h with
  | start => exact .before (by omega) hShelf
  | launch h hPending hAddresses hStep ih =>
    obtain ⟨events, hCourse⟩ := h.course
    exact ih.launch (hCourse.tally hTally) hWritable hPending hAddresses hStep
  | @turn b said crew before after w work line h hWorkers hIndex hTells ih =>
    obtain ⟨events, hCourse⟩ := h.course
    subst hIndex
    have hWrites := ih.writes (hCourse.tally hTally) hWorkers
    exact .during (List.mem_append_right before List.mem_cons_self) rfl (hWrites.turn hTells)
  | @finish b crew before after w result desk h hWorkers hIndex hWork ih =>
    obtain ⟨events, hCourse⟩ := h.course
    have hCounted := hCourse.tally hTally
    subst hIndex
    have hWrites := ih.writes hCounted hWorkers
    rw [hWork] at hWrites
    obtain ⟨t', hClosed, hBecomes⟩ := hWrites.close (endFault result)
    have hMem : w ∈ crew.workers := hWorkers ▸ List.mem_append_right before List.mem_cons_self
    exact .after (hCounted.index_lt hMem) (fun w' hw' => hCounted.ne_of_mem hWorkers hw') hClosed hBecomes
  | other h hStep hOther hSame ih => exact ih.other hStep hOther hSame
  | outside h world hSame ih => exact ih.within hSame

/-- When the pipeline is over and has not failed, the file holds what was said to it. -/
theorem becomes {pl : Pipeline} {phase : Invoker.Phase}
    (h : Sending v output C mayCall p appends k (.start pl.commands (v.openLine pl phase)) b crew)
    (hk : k < pl.commands.length) (hOver : crew.IsOver) (hVerdict : crew.verdict = none)
    (hShelf : phase.world.shelf = (true, t)) (hWritable : t.Writable p) :
    ∃ t', crew.line.world.shelf = (true, t') ∧ t.Becomes p ((if appends then t.content p else []) ++ b) t' := by
  have hStart : Tally (S := C.State) pl.commands.length _ [] (.start pl.commands (v.openLine pl phase)) :=
    Tally.start pl.commands _
  obtain ⟨events, hCourse⟩ := h.course
  have hRefusal : crew.refusal = none := (Option.or_eq_none_iff.mp hVerdict).1
  obtain ⟨hNone, hPending | hSome⟩ := hOver
  · have hAll : crew.launched = pl.commands.length := by simpa [hPending] using (hCourse.tally hStart).count
    cases h.sent hStart rfl hShelf hWritable with
    | before hLaunched hSame => exact absurd (hAll ▸ hk) hLaunched
    | during hw hIndex hWrites =>
      rw [hNone] at hw
      cases hw
    | after hLaunched hGone hClosed hBecomes => exact ⟨_, hClosed, hBecomes⟩
  · rw [hRefusal] at hSome
    cases hSome

end Sending

end Crew

/-- Turns of a stage one after the other, with all that it says. -/
inductive Speaks (C : Calls) (mayCall : Prop) (st : Stage) (x : Work C.State × Line) :
    Bytes → Work C.State × Line → Prop
  | start : Speaks C mayCall st x [] x
  | turn {b said : Bytes} {y z : Work C.State × Line} (h : Speaks C mayCall st x b y)
      (hTells : Tells C mayCall st y said z) : Speaks C mayCall st x (b ++ said) z

theorem Speaks.sending {C : Calls} {mayCall : Prop} {v : Invoker} {output : Output} {pl : Pipeline}
    {phase : Invoker.Phase} {c : Command} {start : Launch} {line : Line} {p : Place} {appends : Bool} {b : Bytes}
    {y : Work C.State × Line} (hp : pl.commands = [c]) (hAddresses : v.Addresses phase.world p appends c)
    (hLaunch : v.launch output 0 true c (v.openLine pl phase) = (.ok start, line))
    (hSpeaks : Speaks C mayCall start.stage (.ready start.task start.desk, line) b y) :
    Crew.Sending v output C mayCall p appends 0 (.start pl.commands (v.openLine pl phase)) b
      ⟨y.2, [], 1, [⟨start.stage, start.inOrder, y.1⟩], none⟩ := by
  have hIndex := (v.stage_launch output 0 true c (v.openLine pl phase) (by rw [hLaunch])).1
  rw [hp]
  induction hSpeaks with
  | start =>
    have hStep : Crew.Step v output C mayCall (.start [c] (v.openLine pl phase)) (.launched 0) _ :=
      .launch rfl rfl (by rintro w ⟨⟩) hLaunch
    exact .launch .start rfl hAddresses hStep
  | turn h hTells ih => exact @Crew.Sending.turn _ _ _ _ _ _ _ _ _ _ _ [] [] _ _ _ ih rfl hIndex hTells

end Pipework
