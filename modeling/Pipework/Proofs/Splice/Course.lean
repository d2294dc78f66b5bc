import Pipework.Proofs.Splice.Ends
import Pipework.Proofs.Splice.Steps

/-!
# Orderly courses with a `cat` and without it

What a pipeline of plain builtins comes to in an orderly course, it comes to with a `cat` in it as well, and the other
way round.
-/

namespace Pipework.Crew

theorem with_workers {S : Type} {crew : Crew S} {ws : List (Worker S)} (h : crew.workers = ws) :
    { crew with workers := ws } = crew := by
  subst h
  rfl

theorem exists_hole {k i : Nat} (h : i ≠ k) : ∃ j, hole k j = i := by
  rcases Nat.lt_or_gt_of_ne h with hBefore | hPast
  · exact ⟨i, hole_of_lt hBefore⟩
  · refine ⟨i - 1, ?_⟩
    rw [hole_of_le (by omega)]
    omega

section Courses

variable {v : Invoker} {output : Output} {C : Calls} {mayCall stops : Prop} {ts : Bytes × Bytes} {k n : Nat}
  {after : List Command} {site : (String → Option Builtin) × Bool} {crew crew' last last' : Crew C.State}
  {w : Worker C.State} (hk : k ≠ 0) (hAfter : after ≠ []) (hCat : site.1 "cat" = some (.concurrent Builtin.cat))

namespace Abreast

section Left

variable (h : Abreast ts k after n site crew crew') {i : Nat}

include h

theorem left_before (hi : i ≠ 0) (hLeft : crew'.Left (hole k i - 1)) : crew.Left (i - 1) := by
  refine h.left_iff.mp (h.flowing'.left_earlier hLeft ?_)
  unfold hole
  split <;> split <;> omega

theorem left_before' (hLeft : crew.Left (i - 1)) (hHere : i = k → crew'.Left k) : crew'.Left (hole k i - 1) := by
  by_cases hi : i = k
  · rw [hole_of_le (Nat.le_of_eq hi.symm), Nat.add_sub_cancel, hi]
    exact hHere hi
  · refine h.flowing'.left_earlier (h.left_iff.mpr hLeft) ?_
    unfold hole
    split <;> split <;> omega

theorem outlasts (hFirst : ∀ j ∈ crew'.indices, hole k i ≤ j) : ∀ j ∈ crew.indices, i ≤ j :=
  fun _ hj => hole_le.mp (hFirst _ (h.index_mem.mpr hj))

theorem outlasts' (hFirst : ∀ j ∈ crew.indices, i ≤ j) (hGone : k ≤ i → crew'.Left k) :
    ∀ j ∈ crew'.indices, hole k i ≤ j := by
  intro j hj
  by_cases hCat : j = k
  · subst hCat
    have hBefore : i < j := Nat.not_le.mp fun hPast => (hGone hPast).2 hj
    rw [hole_of_lt hBefore]
    exact Nat.le_of_lt hBefore
  · obtain ⟨l, rfl⟩ := exists_hole hCat
    exact hole_le.mpr (hFirst l (h.index_mem.mp hj))

end Left

include hk

variable (v output mayCall stops) in
theorem leaves (h : Abreast ts k after n site crew crew') (hLeft : crew.Left (k - 1))
    (hTaken : Taken ts k crew crew' w) :
    ∃ last', Orders v output C mayCall stops crew' last' ∧ Abreast ts k after n site crew last' ∧ last'.Left k := by
  obtain ⟨before, back, hWorkers⟩ := List.append_of_mem (mem_of_cats hTaken.cats).1
  have hFirst : ∀ i ∈ crew'.indices, w.stage.index ≤ i := by
    have hLeft' : crew'.Left (hole k (k - 1)) := h.left_iff.mpr hLeft
    rw [hole_of_lt (by omega)] at hLeft'
    intro i hi
    have hLater := h.flowing'.inTurn _ hLeft' i hi
    rw [hTaken.copies.index]
    omega
  obtain ⟨hGone, hNext⟩ := h.leave_cat hk hTaken hWorkers hFirst .ready
  refine ⟨_, ?_, hNext, hGone⟩
  exact h.flowing'.orders hWorkers hTaken.copies.holds Pose.plain_copied .ready (by rintro ⟨⟩) False.elim
    fun _ => hFirst

variable (v output mayCall stops) in
/-- The `cat` gets out of the way once the stage before it has left. -/
theorem make_way (h : Abreast ts k after n site crew crew') :
    ∃ last', Orderly v output C mayCall stops crew' last' ∧ Abreast ts k after n site crew last' ∧
      (crew.Left (k - 1) → Beyond k crew crew' → last'.Left k) := by
  by_cases hDue : crew.Left (k - 1) ∧ Beyond k crew crew'
  · obtain ⟨hLeft, hBeyond⟩ := hDue
    cases h.passing with
    | ahead hAhead hLine hOwn hCats => exact (hAhead.not_beyond hBeyond).elim
    | @unread w hUnread =>
      obtain ⟨before, back, hWorkers⟩ := List.append_of_mem (mem_of_cats hUnread.cats).1
      have hIndex := hUnread.copies.index
      obtain ⟨⟨u, hTaken⟩, hNext⟩ := h.copy hk hUnread hLeft hWorkers .ready
      obtain ⟨last', hLast, hAbreast, hGone⟩ := hNext.leaves v output mayCall stops hk hLeft hTaken
      have hFirst : Orders v output C mayCall stops crew' _ :=
        h.flowing'.orders hWorkers hUnread.copies.holds Pose.plain_copying .ready (by rintro ⟨⟩)
          (fun _ => hIndex ▸ h.input_cat hk hUnread.cats hLeft) (by rintro ⟨⟩)
      exact ⟨last', .head hFirst (.single hLast), hAbreast, fun _ _ => hGone⟩
    | taken hTaken =>
      obtain ⟨last', hLast, hAbreast, hGone⟩ := h.leaves v output mayCall stops hk hLeft hTaken
      exact ⟨last', .single hLast, hAbreast, fun _ _ => hGone⟩
    | passed hBeyond hLine hCats =>
      have hReached := hBeyond.reached
      refine ⟨crew', .refl, h, fun _ _ => ⟨?_, not_mem_of_cats hCats⟩⟩
      rw [hBeyond.launched]
      omega
  · exact ⟨crew', .refl, h, fun hLeft hBeyond => absurd ⟨hLeft, hBeyond⟩ hDue⟩

omit hk in
theorem canceled_eq (h : Abreast ts k after n site crew crew') : crew'.line.canceled = crew.line.canceled := by
  obtain ⟨e, K, hAlike⟩ := h.passing.alike
  exact hAlike.canceled

include hAfter hCat

variable (v output mayCall stops) in
theorem make_ready (h : Abreast ts k after n site crew crew') (hRefusal : crew.refusal = none)
    (hOrder : ∀ w ∈ crew.workers, w.inOrder = false) :
    ∃ last', Orderly v output C mayCall stops crew' last' ∧ Abreast ts k after n site crew last' ∧
      (crew.launched ≠ k ∨ Beyond k crew last') := by
  by_cases hNow : crew.launched = k
  · rcases h.passing.ahead_or_beyond with hAhead | hBeyond
    · obtain ⟨hPending, hLaunch, hBeyond, hNext⟩ := h.launch_cat hk v output hAfter hCat hAhead hNow
      have hStep : Orders v output C mayCall stops crew' _ :=
        .launch hPending (h.refusal.trans hRefusal) (h.inOrder_iff.mpr hOrder) hLaunch
      exact ⟨_, .single hStep, hNext, .inr hBeyond⟩
    · exact ⟨crew', .refl, h, .inr hBeyond⟩
  · exact ⟨crew', .refl, h, .inl hNow⟩

omit hk hAfter hCat in
theorem workers_nil (h : Abreast ts k after n site crew crew') (hNone : crew.workers = []) (hGone : k ∉ crew'.indices) :
    crew'.workers = [] := by
  have hTwins := h.workers
  rw [hNone] at hTwins
  have hOthers : crew'.workers.filter (·.stage.index != k) = [] := List.forall₂_nil_left_iff.mp hTwins
  refine List.eq_nil_iff_forall_not_mem.mpr fun w hw => ?_
  have hIndex : w.stage.index = k := by simpa using List.filter_eq_nil_iff.mp hOthers w hw
  exact hGone (hIndex ▸ Flowing.index_mem hw)

variable (v output mayCall stops) in
omit hCat in
theorem finishes (h : Abreast ts k after n site crew crew') (hOver : crew.IsOver) :
    ∃ last', Orderly v output C mayCall stops crew' last' ∧ Abreast ts k after n site crew last' ∧ last'.IsOver := by
  obtain ⟨hNone, hEnd⟩ := hOver
  rcases h.passing.ahead_or_beyond with hAhead | hBeyond
  · -- The `cat` is never launched, since an earlier command could not be.
    obtain ⟨before, hPending, -⟩ := hAhead.pending
    obtain ⟨-, -, hCats⟩ := h.passing.of_ahead hAhead
    refine ⟨crew', .refl, h, h.workers_nil hNone (not_mem_of_cats hCats), .inr ?_⟩
    rw [h.refusal]
    refine hEnd.resolve_left fun hAll => ?_
    rw [hAll] at hPending
    exact hAfter (List.append_eq_nil_iff.mp hPending.symm).2
  · have hReached := hBeyond.reached
    have hLeft : crew.Left (k - 1) := ⟨by omega, by simp [indices, hNone]⟩
    obtain ⟨last', hCourse, hNext, hGone⟩ := h.make_way v output mayCall stops hk
    have hPassed := hGone hLeft hBeyond
    refine ⟨last', hCourse, hNext, hNext.workers_nil hNone hPassed.2, ?_⟩
    rw [hNext.refusal]
    refine hEnd.imp_left fun hAll => ?_
    rcases hNext.passing.ahead_or_beyond with hAhead | hBeyond
    · have hLaunched := hPassed.1
      have hLe := hAhead.le
      rw [hAhead.launched] at hLaunched
      omega
    · exact hBeyond.pending.trans hAll

section Moving

variable {before back before' back' : List (Worker C.State)} {w' : Worker C.State} {pose : Pose}

omit hAfter hCat in
/-- What lets a stage go on without the `cat` lets it go on with it, once the `cat` is out of the way. -/
theorem moving (h : Abreast ts k after n site crew crew') (hWorkers : crew.workers = before ++ w :: back)
    (hWorkers' : crew'.workers = before' ++ w' :: back') (hStage : w'.stage = w.stage.past k) (hPlain : pose.IsPlain)
    (hInput : pose.Reads w.stage → ∃ data, crew.line.pipe (w.stage.index - 1) = .ofBytes data)
    (hOutlasts : pose.isDone = true → ∀ i ∈ crew.indices, w.stage.index ≤ i)
    (hGone : k ≤ w.stage.index → crew.Left (k - 1) → crew'.Left k) :
    Moving k n site crew crew' before back before' back' w w' pose ∧
      (pose.isDone = true → ∀ i ∈ crew'.indices, w'.stage.index ≤ i) := by
  have hw := Flowing.mem hWorkers
  have hReading (hReads : pose.Reads w.stage) (hHere : w.stage.index = k) : crew'.Left k :=
    hGone (Nat.le_of_eq hHere.symm) (hHere ▸ h.flowing.left_of_reads hw hInput hReads)
  have hLeaving (hDone : pose.isDone = true) (hPast : k ≤ w.stage.index) : crew'.Left k :=
    hGone hPast (h.flowing.left_of_outlasts hw (hOutlasts hDone) (by omega))
  refine ⟨⟨h.flowing, h.flowing', hWorkers, hWorkers', hStage, hPlain, hInput, ?_, hReading, hLeaving⟩, fun hDone => ?_⟩
  · intro hReads'
    have hReads : pose.Reads w.stage := Pose.reads_past.mp (hStage ▸ hReads')
    refine h.flowing'.line.pipe_of_left (h.flowing'.before_lt (Flowing.mem hWorkers') hReads'.source) ?_
    rw [hStage, Stage.index_past]
    exact h.left_before' (h.flowing.left_of_reads hw hInput hReads) (hReading hReads)
  · rw [hStage, Stage.index_past]
    exact h.outlasts' (hOutlasts hDone) (hLeaving hDone)

omit hk hAfter hCat in
theorem moving_back (h : Abreast ts k after n site crew crew') (hWorkers : crew.workers = before ++ w :: back)
    (hWorkers' : crew'.workers = before' ++ w' :: back') (hStage : w'.stage = w.stage.past k) (hPlain : pose.IsPlain)
    (hInput' : pose.Reads w'.stage → ∃ data, crew'.line.pipe (w'.stage.index - 1) = .ofBytes data)
    (hOutlasts' : pose.isDone = true → ∀ i ∈ crew'.indices, w'.stage.index ≤ i) :
    Moving k n site crew crew' before back before' back' w w' pose ∧
      (pose.isDone = true → ∀ i ∈ crew.indices, w.stage.index ≤ i) := by
  have hw := Flowing.mem hWorkers
  have hw' := Flowing.mem hWorkers'
  have hIndex : w'.stage.index = hole k w.stage.index := by rw [hStage, Stage.index_past]
  have hBefore (hReads : pose.Reads w.stage) : crew'.Left (hole k w.stage.index - 1) :=
    hIndex ▸ h.flowing'.left_of_reads hw' hInput' (hStage ▸ Pose.reads_past.mpr hReads)
  refine ⟨⟨h.flowing, h.flowing', hWorkers, hWorkers', hStage, hPlain, ?_, hInput', ?_, ?_⟩, fun hDone => ?_⟩
  · intro hReads
    refine h.flowing.line.pipe_of_left (h.flowing.before_lt hw hReads.source) ?_
    exact h.left_before ((h.flowing.workers w hw).source hReads.source) (hBefore hReads)
  · intro hReads hHere
    have hLeft := hBefore hReads
    rwa [hHere, hole_of_le (Nat.le_refl k), Nat.add_sub_cancel] at hLeft
  · intro hDone hPast
    refine h.flowing'.left_of_outlasts hw' (hOutlasts' hDone) ?_
    rw [hIndex, hole_of_le hPast]
    omega
  · exact h.outlasts (hIndex ▸ hOutlasts' hDone)

end Moving

theorem forth (h : Abreast ts k after n site crew crew') (hOrders : Orders v output C mayCall stops crew last) :
    ∃ last', Orderly v output C mayCall stops crew' last' ∧ Abreast ts k after n site last last' := by
  cases h.flowing.goes hOrders with
  | launch hPending hRefusal hOrder hLaunch =>
    obtain ⟨mid, hCourse, h, hPast⟩ := h.make_ready v output mayCall stops hk hAfter hCat hRefusal hOrder
    obtain ⟨rest', hDue⟩ := h.due hk hAfter hPending hPast
    rcases hDue.cases v output h with ⟨start', line, line', hFound, hLaunch'⟩ | ⟨fault, line, line', hFound, -⟩
    · cases hLaunch.symm.trans hFound
      have hStep : Orders v output C mayCall stops mid _ :=
        .launch hDue.pending' (h.refusal.trans hRefusal) (h.inOrder_iff.mpr hOrder) hLaunch'
      exact ⟨_, hCourse.tail hStep, hDue.launch h hAfter hLaunch hLaunch'⟩
    · cases hLaunch.symm.trans hFound
  | refuse hPending hRefusal hOrder hLaunch =>
    obtain ⟨mid, hCourse, h, hPast⟩ := h.make_ready v output mayCall stops hk hAfter hCat hRefusal hOrder
    obtain ⟨rest', hDue⟩ := h.due hk hAfter hPending hPast
    rcases hDue.cases v output h with ⟨start, line, line', hFound, -⟩ | ⟨fault', line, line', hFound, hLaunch'⟩
    · cases hLaunch.symm.trans hFound
    · cases hLaunch.symm.trans hFound
      have hStep : Orders v output C mayCall stops mid _ :=
        .refuse hDue.pending' (h.refusal.trans hRefusal) (h.inOrder_iff.mpr hOrder) hLaunch'
      exact ⟨_, hCourse.tail hStep, hDue.refuse h hLaunch hLaunch'⟩
  | stop hStops => exact ⟨_, .single (.stop hStops), h.stop⟩
  | @turn before back w _ hWorkers hTurns =>
    have hBelow := h.flowing.below _ (Flowing.index_mem (Flowing.mem hWorkers))
    have hPast (hLater : k ≤ w.stage.index) : Beyond k crew crew' := h.passing.beyond (by omega)
    obtain ⟨mid, hCourse, h, hGone⟩ := h.make_way v output mayCall stops hk
    have hTwins := h.workers
    rw [hWorkers] at hTwins
    obtain ⟨before', w', back', hWorkers', hBefore, hTwin, hBack⟩ := hTwins.split
    cases hTwin with
    | intro hHolds hHolds' hPlain =>
      cases hTurns hHolds hPlain with
      | linger hHolds'' =>
        refine ⟨mid, hCourse, ?_⟩
        rw [← with_workers hWorkers']
        exact h.linger hWorkers hWorkers' hBefore hBack rfl rfl hHolds'' hHolds' hPlain
      | move signal hStop hInput hOutlasts =>
        obtain ⟨hMoving, hOutlasts'⟩ := h.moving hk hWorkers hWorkers' rfl hPlain hInput hOutlasts fun hLater hLeft =>
          hGone hLeft (hPast hLater)
        have hStep : Orders v output C mayCall stops mid _ :=
          h.flowing'.orders hWorkers' hHolds' hPlain signal (h.canceled_eq ▸ hStop) hMoving.input' hOutlasts'
        exact ⟨_, hCourse.tail hStep, h.turn hk hMoving hBefore hBack rfl hHolds hHolds' signal hOutlasts hOutlasts'⟩

omit hAfter hCat in
theorem back_cat (h : Abreast ts k after n site crew crew') {before' back' : List (Worker C.State)}
    (hWorkers' : crew'.workers = before' ++ w :: back') (hIndex : w.stage.index = k)
    (hTurns : ∀ {pose : Pose}, w.work.Holds w.stage pose → pose.IsPlain → crew'.Turns before' back' w pose last') :
    Abreast ts k after n site crew last' := by
  have hw := Flowing.mem hWorkers'
  have hMem : w ∈ crew'.cats k := by simp [cats, hw, hIndex]
  cases h.passing with
  | ahead hAhead hLine hOwn hCats =>
    rw [hCats] at hMem
    cases hMem
  | unread hUnread =>
    rw [hUnread.cats] at hMem
    obtain rfl := List.mem_singleton.mp hMem
    cases hTurns hUnread.copies.holds Pose.plain_copying with
    | linger hHolds =>
      refine h.linger_cat hUnread.cats hUnread.copies Pose.plain_copying hWorkers' hHolds ?_
      intro last' u hLine hLaunched hPending hCats hCopies
      refine .unread ⟨⟨?_, ?_, hUnread.beyond.reached⟩, hLine ▸ hUnread.line, hLine ▸ hUnread.own, hCats, hCopies⟩
      · rw [hLaunched, hUnread.beyond.launched]
      · rw [hPending, hUnread.beyond.pending]
    | move signal hStop hInput hOutlasts =>
      have hLeft := h.flowing'.left_of_reads hw hInput ⟨hUnread.copies.source, rfl⟩
      rw [hIndex, show k - 1 = hole k (k - 1) from (hole_of_lt (by omega)).symm, h.left_iff] at hLeft
      exact (h.copy hk hUnread hLeft hWorkers' signal).2
  | taken hTaken =>
    rw [hTaken.cats] at hMem
    obtain rfl := List.mem_singleton.mp hMem
    cases hTurns hTaken.copies.holds Pose.plain_copied with
    | linger hHolds =>
      refine h.linger_cat hTaken.cats hTaken.copies Pose.plain_copied hWorkers' hHolds ?_
      intro last' u hLine hLaunched hPending hCats hCopies
      refine .taken ⟨⟨?_, ?_, hTaken.beyond.reached⟩, hLine ▸ hTaken.line, hLine ▸ hTaken.full, hCats, hCopies⟩
      · rw [hLaunched, hTaken.beyond.launched]
      · rw [hPending, hTaken.beyond.pending]
    | move signal hStop hInput hOutlasts => exact (h.leave_cat hk hTaken hWorkers' (hOutlasts rfl) signal).2
  | passed hBeyond hLine hCats =>
    rw [hCats] at hMem
    cases hMem

/-- What a pipeline with a `cat` does, it does without it as well, but for what the `cat` does. -/
theorem back (h : Abreast ts k after n site crew crew') (hOrders : Orders v output C mayCall stops crew' last') :
    ∃ last, Orderly v output C mayCall stops crew last ∧ Abreast ts k after n site last last' := by
  cases h.flowing'.goes hOrders with
  | launch hPending' hRefusal' hOrder' hLaunch' =>
    rcases h.due' hk hAfter hPending' with ⟨hAhead, hNow⟩ | ⟨rest, hDue⟩
    · obtain ⟨hPending, hLaunch, -, hNext⟩ := h.launch_cat hk v output hAfter hCat hAhead hNow
      obtain ⟨rfl, rfl⟩ := List.cons.inj (hPending'.symm.trans hPending)
      cases hLaunch'.symm.trans hLaunch
      exact ⟨crew, .refl, hNext⟩
    · rcases hDue.cases v output h with ⟨start, line, line', hLaunch, hFound⟩ | ⟨fault, line, line', -, hFound⟩
      · cases hLaunch'.symm.trans hFound
        have hStep : Orders v output C mayCall stops crew _ :=
          .launch hDue.pending (h.refusal.symm.trans hRefusal') (h.inOrder_iff.mp hOrder') hLaunch
        exact ⟨_, .single hStep, hDue.launch h hAfter hLaunch hLaunch'⟩
      · cases hLaunch'.symm.trans hFound
  | refuse hPending' hRefusal' hOrder' hLaunch' =>
    rcases h.due' hk hAfter hPending' with ⟨hAhead, hNow⟩ | ⟨rest, hDue⟩
    · obtain ⟨hPending, hLaunch, -⟩ := h.launch_cat hk v output hAfter hCat hAhead hNow
      obtain ⟨rfl, rfl⟩ := List.cons.inj (hPending'.symm.trans hPending)
      cases hLaunch'.symm.trans hLaunch
    · rcases hDue.cases v output h with ⟨start, line, line', -, hFound⟩ | ⟨fault, line, line', hLaunch, hFound⟩
      · cases hLaunch'.symm.trans hFound
      · cases hLaunch'.symm.trans hFound
        have hStep : Orders v output C mayCall stops crew _ :=
          .refuse hDue.pending (h.refusal.symm.trans hRefusal') (h.inOrder_iff.mp hOrder') hLaunch
        exact ⟨_, .single hStep, hDue.refuse h hLaunch hLaunch'⟩
  | stop hStops => exact ⟨_, .single (.stop hStops), h.stop⟩
  | @turn before' back' w' _ hWorkers' hTurns =>
    by_cases hIndex : w'.stage.index = k
    · exact ⟨crew, .refl, h.back_cat hk hWorkers' hIndex hTurns⟩
    · have hTwins := h.workers
      rw [hWorkers'] at hTwins
      obtain ⟨before, w, back, hWorkers, hBefore, hTwin, hBack⟩ := hTwins.split_other hIndex
      cases hTwin with
      | intro hHolds hHolds' hPlain =>
        cases hTurns hHolds' hPlain with
        | linger hHolds'' =>
          refine ⟨crew, .refl, ?_⟩
          rw [← with_workers hWorkers]
          exact h.linger hWorkers hWorkers' hBefore hBack rfl rfl hHolds hHolds'' hPlain
        | move signal hStop hInput' hOutlasts' =>
          obtain ⟨hMoving, hOutlasts⟩ := h.moving_back hWorkers hWorkers' rfl hPlain hInput' hOutlasts'
          have hStep : Orders v output C mayCall stops crew _ :=
            h.flowing.orders hWorkers hHolds hPlain signal (h.canceled_eq ▸ hStop) hMoving.input hOutlasts
          exact ⟨_, .single hStep, h.turn hk hMoving hBefore hBack rfl hHolds hHolds' signal hOutlasts hOutlasts'⟩

end Abreast

end Courses

end Pipework.Crew
