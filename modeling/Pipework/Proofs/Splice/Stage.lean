import Pipework.Proofs.Schedule.Orderly
import Pipework.Proofs.Splice.Beside

/-!
# Stages on renumbered pipes

A stage whose place in the pipeline is another, and whose pipes are numbered accordingly, does the same as before:
it gets the same answers, waits for the same pipes, and leaves a line like the one that it left before. The pipe
before it does not matter as long as it does not read from it.
-/

namespace Pipework

/-- The scripts that stages run do not see what has been traced. -/
def Nested.Untraced (nested : Nested) : Prop :=
  ∀ ts context file line text w w', w.Retraced ts w' →
    (nested context file line text w).Beside (World.Retraced ts) Wait.Outward (nested context file line text w')

/-- `e` numbers the pipes before and after stage `i` as those of a stage `d` places further on. -/
structure Shifts (e : Nat → Nat) (d i : Nat) : Prop where
  own : e i = i + d
  before : e (i - 1) = i + d - 1
  first : i + d = 0 ↔ i = 0

theorem Shifts.id (i : Nat) : Shifts id 0 i := ⟨rfl, rfl, Iff.rfl⟩

theorem Reply.map_beside {α β : Type} (f : α → β) {R : Line → Line → Prop} {W : Wait → Wait → Prop}
    {r r' : Reply α} (h : Run.Beside R W r r') : Run.Beside R W (r.map f) (r'.map f) :=
  h.bind fun _ _ _ h => .done h

namespace Stage

def further (d : Nat) (st : Stage) : Stage := { st with index := st.index + d }

/-- `e` numbers the pipes of the stage as those of a stage `d` places further on, and these agree as far as `K` holds of
them. The pipe before the stage matters only if the stage `takes` something from it. -/
structure Renumbers (e : Nat → Nat) (K : Nat → Prop) (d : Nat) (takes : Prop) (st : Stage) : Prop where
  own : e st.index = st.index + d
  kept : K st.index
  before : takes → st.source = .pipe → e (st.index - 1) = st.index + d - 1 ∧ K (st.index - 1)

variable {ts : Bytes × Bytes} {e : Nat → Nat} {K : Nat → Prop} {d : Nat} {takes : Prop} {st : Stage} {line line' : Line}

theorem renumbers_of_shifts (h : Shifts e d st.index) : st.Renumbers e (fun _ => True) d takes :=
  ⟨h.own, trivial, fun _ _ => ⟨h.before, trivial⟩⟩

section Actions

variable (he : e.Injective) (hPlace : st.Renumbers e K d takes) (h : line.Alike ts e K line')

include he hPlace h

theorem deliver_alike (sink : Sink) (data : Bytes) (desk : Desk) :
    (st.deliver sink data desk line).Beside (Line.Alike ts e K) (Wait.Moved e)
      ((st.further d).deliver sink data desk line') := by
  cases sink with
  | null => exact .done h
  | errors => exact .done (h.update (fun w => { w with errors := w.errors ++ data }) fun _ _ => rfl)
  | file i =>
    unfold deliver
    dsimp only
    split
    · exact .done h
    · next handle _ =>
      exact .done (h.replace (h.world.serve handle.storage (handle.writing data)).2)
  | output =>
    have hIndex : (st.further d).index = e st.index := hPlace.own.symm
    unfold deliver
    dsimp only
    rw [hIndex, h.broken, h.pipe hPlace.kept]
    refine .ite (fun _ => ?_) fun _ => ?_
    · exact .ite (fun _ => .done h) fun _ => .done (h.setPipe he hPlace.kept _)
    · have hOutput : (st.further d).output = st.output := rfl
      rw [hOutput]
      cases st.output with
      | host => exact .done (h.update (fun w => { w with output := w.output ++ data }) fun _ _ => rfl)
      | capture => exact .done (h.capture data)
      | consumer =>
        dsimp only
        rw [h.stopped]
        refine .ite (fun _ => .done h) fun _ => .ite (fun _ => .done h) fun _ => ?_
        exact .wait h rfl fun signal line line' h => .done h

theorem flood_alike (data : Bytes) (desk : Desk) :
    (st.flood data desk line).Beside (Line.Alike ts e K) (Wait.Moved e) ((st.further d).flood data desk line') := by
  have hIndex : (st.further d).index = e st.index := hPlace.own.symm
  have hOutput : (st.further d).output = st.output := rfl
  have hStuck (why : Wait) (answer stopped : Option Fault) {line line' : Line} (h : line.Alike ts e K line') :
      Run.Beside (Line.Alike ts e K) (Wait.Moved e)
        (.wait why line fun signal line => .done (desk, st.afterWait signal answer stopped) line)
        (.wait (why.moved e) line' fun signal line =>
          .done (desk, (st.further d).afterWait signal answer stopped) line) :=
    .wait h rfl fun signal line line' h => .done h
  unfold flood
  rw [hIndex, h.pipe hPlace.kept, h.stopped, hOutput]
  refine .ite (fun _ => hStuck .stop _ _ h) fun _ => ?_
  refine .ite (fun _ => hStuck (.room st.index) _ _ (h.setPipe he hPlace.kept _)) fun _ => ?_
  cases st.output with
  | consumer => exact .ite (fun _ => .done h) fun _ => hStuck (.offer data true) _ _ h
  | _ => exact hStuck .stop _ _ h

theorem read_alike (hTakes : takes) (amount : Amount) (desk : Desk) :
    (st.read amount desk line).Beside (Line.Alike ts e K) (Wait.Moved e) ((st.further d).read amount desk line') := by
  have hSource : (st.further d).source = st.source := rfl
  have hBefore := hPlace.before hTakes
  unfold read
  rw [hSource]
  cases hPipe : st.source with
  | host =>
    obtain ⟨t, hTrace, hWorld⟩ := h.world
    dsimp only
    rw [hWorld]
    exact .done (h.replace ⟨t, hTrace, rfl⟩)
  | feed => exact .done h
  | pipe =>
    obtain ⟨hIndex, hKept⟩ := hBefore hPipe
    have hFurther : (st.further d).index - 1 = e (st.index - 1) := hIndex.symm
    dsimp only
    rw [hFurther, h.pipe hKept]
    cases (line.pipe (st.index - 1)).take? amount with
    | some answer => exact .done (h.setPipe he hKept _)
    | none =>
      refine .wait h rfl fun signal line line' h => ?_
      rw [h.pipe hKept]
      exact .done (h.setPipe he hKept _)

theorem pour_alike (data : Bytes) (desk : Desk) :
    (st.pour data desk line).Beside (Line.Alike ts e K) (Wait.Moved e) ((st.further d).pour data desk line') := by
  unfold pour
  exact .ite (fun _ => .done h) fun _ => deliver_alike he hPlace h st.out data desk

theorem scan_alike (hTakes : takes) (desk : Desk) :
    (st.scan desk line).Beside (Line.Alike ts e K) (Wait.Moved e) ((st.further d).scan desk line') := by
  obtain ⟨t, hTrace, hWorld⟩ := h.world
  have hSource : (st.further d).source = st.source := rfl
  unfold scan
  rw [hSource]
  refine .ite (fun _ => ?_) fun _ => read_alike he hPlace h hTakes .all desk
  rw [hWorld]
  exact .done h

omit he in
theorem inputFeed_alike (hTakes : takes) (desk : Desk) :
    (st.further d).inputFeed desk line' = st.inputFeed desk line := by
  have hSource : (st.further d).source = st.source := rfl
  have hBefore := hPlace.before hTakes
  unfold inputFeed
  rw [hSource]
  cases hPipe : st.source with
  | host =>
    obtain ⟨t, hTrace, hWorld⟩ := h.world
    dsimp only
    rw [hWorld]
    rfl
  | feed => rfl
  | pipe =>
    obtain ⟨hIndex, hKept⟩ := hBefore hPipe
    have hFurther : (st.further d).index - 1 = e (st.index - 1) := hIndex.symm
    dsimp only
    rw [hFurther, h.pipe hKept]

theorem relay_alike (hTakes : takes) (filter : Filter) (desk : Desk) :
    (st.relay filter desk line).Beside (Line.Alike ts e K) (Wait.Moved e) ((st.further d).relay filter desk line') := by
  have hSource : (st.further d).source = st.source := rfl
  unfold relay
  rw [inputFeed_alike hPlace h hTakes, hSource]
  dsimp only
  split
  · refine (pour_alike he hPlace h _ desk).bind fun (desk, delivery) line line' h => ?_
    dsimp only
    split
    · exact Reply.map_beside _ (flood_alike he hPlace h _ desk)
    · exact .done h
  · refine (scan_alike he hPlace h hTakes desk).bind fun (desk, answer) line line' h => ?_
    cases answer with
    | none => exact .done h
    | some answer =>
      exact (pour_alike he hPlace h _ desk).bind fun (desk, delivery) line line' h => .done (h.used _)

omit hPlace in
theorem perform_alike {nested : Nested} (hNested : nested.Untraced) (desk : Desk) (action : Action)
    (hPlace : st.Renumbers e K d (action.takes = true)) :
    (st.perform nested desk line action).Beside (Line.Alike ts e K) (Wait.Moved e)
      ((st.further d).perform nested desk line' action) := by
  obtain ⟨t, hTrace, hWorld⟩ := h.world
  cases action with
  | write channel data =>
    cases channel with
    | out => exact Reply.map_beside _ (deliver_alike he hPlace h st.out data desk)
    | err => exact Reply.map_beside _ (deliver_alike he hPlace h st.err data desk)
  | flood data => exact flood_alike he hPlace h data desk
  | read amount => exact read_alike he hPlace h rfl amount desk
  | relay filter => exact relay_alike he hPlace h rfl filter desk
  | lookup key =>
    dsimp only [perform]
    rw [hWorld]
    exact .done h
  | assign key value => exact .done (h.assign st.overlay key value)
  | workDirectory =>
    dsimp only [perform]
    rw [hWorld]
    exact .done h
  | files storage request =>
    obtain ⟨hReply, hServed⟩ := h.world.serve storage request
    dsimp only [perform]
    rw [hReply]
    exact .done (h.replace hServed)
  | inquire side =>
    have hFile : (st.further d).fileAt side desk line' = st.fileAt side desk line := by
      unfold fileAt
      rw [hWorld]
      rfl
    dsimp only [perform]
    rw [hFile]
    exact .done h
  | pause =>
    dsimp only [perform]
    rw [h.canceled]
    split
    · exact .done h
    · exact .wait h rfl fun signal line line' h => .done h
  | invoke file number script =>
    have hScript := hNested ts { st.context with canceled := line.canceled } file number script _ _ h.world
    dsimp only [perform]
    rw [h.canceled]
    have hMoved := hScript.mono fun _ _ hWhy => hWhy.moved e
    refine (hMoved.embed (fun _ _ h => h.world) (fun _ _ _ _ hWorld h => ?_) h).bind fun _ _ _ h => .done h
    exact h.replace hWorld
  | consult name ask =>
    dsimp only [perform]
    rw [hWorld]
    exact .done (h.replace ⟨t, hTrace, rfl⟩)

omit hPlace in
theorem close_alike (hShift : Shifts e d st.index) (fault : Option Fault) (desk : Desk) :
    (st.close fault desk line).Alike ts e K ((st.further d).close fault desk line') := by
  have hOwn : (st.further d).index = e st.index := hShift.own.symm
  have hBefore : (st.further d).index - 1 = e (st.index - 1) := hShift.before.symm
  have hFirst : (st.further d).index = 0 ↔ st.index = 0 := hShift.first
  cases h with
  | @intro w pipes broken hWorld hPipes hBroken =>
    have hClosed : ((line.world.closeAll desk.handles).releaseAll st.readings).Retraced ts
        ((w.closeAll desk.handles).releaseAll st.readings) := by
      rw [World.releaseAll_eq, World.releaseAll_eq]
      exact hWorld.map (f := fun w => w.closeAll desk.handles) fun w t => (World.unseen_withTrace t).closeAll w _
    unfold close
    refine .intro hClosed (fun i hi => ?_) fun i => ?_
    · dsimp only
      rw [hOwn]
      simp only [List.getElem?_modify, he.eq_iff, hPipes i hi]
    · dsimp only
      by_cases hIndex : st.index = 0
      · rw [if_pos hIndex, if_pos (hFirst.mpr hIndex)]
        exact hBroken i
      · rw [if_neg hIndex, if_neg (mt hFirst.mp hIndex), hBefore]
        simp only [List.contains_cons, he.beq_eq, hBroken]

end Actions

theorem run_beside (he : e.Injective) (hShift : Shifts e d st.index) {nested : Nested} (hNested : nested.Untraced)
    (program : Program (Except Fault Unit)) (desk : Desk) (h : line.Beside ts e line') :
    (st.run nested program desk line).Beside (Line.Beside ts e) (Wait.Moved e)
      ((st.further d).run nested program desk line') := by
  induction program generalizing desk line line' with
  | done result => exact .done (close_alike he h hShift _ desk)
  | act action next ih =>
    unfold run
    refine (perform_alike he h hNested desk action (renumbers_of_shifts hShift)).bind
      fun (desk, answer) line line' h => ?_
    cases answer with
    | some answer => exact ih answer desk h
    | none => exact .done (close_alike he h hShift _ desk)

end Stage

end Pipework
