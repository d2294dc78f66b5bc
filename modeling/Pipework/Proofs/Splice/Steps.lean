import Pipework.Proofs.Splice.Abreast

/-!
# Steps of pipelines that are abreast

What one pipeline does next, the one with a `cat` does as well, after the `cat` has got out of the way if need be; and
what that does next, the first does as well, unless it is done by the `cat`. Either way the two are abreast again.
-/

namespace Pipework.Crew

section Abreast

variable {S : Type} {ts : Bytes × Bytes} {k n : Nat} {after : List Command}
  {site : (String → Option Builtin) × Bool} {crew crew' : Crew S} {before back before' back' : List (Worker S)}
  {w w' : Worker S} {pose : Pose}

/-- The command `c` is the next in both pipelines. -/
structure Due (k : Nat) (c : Command) (rest rest' : List Command) (crew crew' : Crew S) : Prop where
  pending : crew.pending = c :: rest
  pending' : crew'.pending = c :: rest'
  isEmpty : rest'.isEmpty = rest.isEmpty
  launched : crew'.launched = crew.launched + shift k crew.launched
  first : crew.launched + shift k crew.launched = 0 ↔ crew.launched = 0

theorem Ahead.due (h : Ahead k after crew crew') (hAfter : after ≠ []) (hNext : crew.launched ≠ k) :
    ∃ c before, crew.launched + before.length + 1 = k ∧
      Due k c (before ++ after) (before ++ .bareCat :: after) crew crew' := by
  obtain ⟨before, hPending, hPending', hCount⟩ := h.pending
  cases before with
  | nil => exact absurd hCount hNext
  | cons c before =>
    rw [List.length_cons] at hCount
    have hEarly : crew.launched < k := by omega
    refine ⟨c, before, by omega, hPending, hPending', ?_, ?_, ?_⟩
    · cases before <;> simp [hAfter]
    · rw [shift_of_lt hEarly, h.launched, Nat.add_zero]
    · rw [shift_of_lt hEarly, Nat.add_zero]

theorem Beyond.due (h : Beyond k crew crew') (hk : k ≠ 0) {c : Command} {rest : List Command}
    (hPending : crew.pending = c :: rest) : Due k c rest rest crew crew' where
  pending := hPending
  pending' := h.pending.trans hPending
  isEmpty := rfl
  launched := by rw [shift_of_le h.reached, h.launched]
  first := by
    have hReached := h.reached
    rw [shift_of_le hReached]
    omega

namespace Abreast

variable (h : Abreast ts k after n site crew crew')

include h

theorem index_mem {i : Nat} : hole k i ∈ crew'.indices ↔ i ∈ crew.indices := by
  have hSame := h.workers.map (f := fun w => hole k w.stage.index) (g := fun w => w.stage.index) fun w w' hTwin => by
    cases hTwin
    exact w.stage.index_past k
  have hOthers :
      hole k i ∈ (crew'.workers.filter (·.stage.index != k)).map (·.stage.index) ↔ hole k i ∈ crew'.indices := by
    simp only [indices, List.mem_map, List.mem_filter, bne_iff_ne]
    exact exists_congr fun w => and_congr_left fun hIndex => and_iff_left (hIndex ▸ hole_ne k i)
  rw [← hOthers, hSame, indices, List.mem_map, List.mem_map]
  exact exists_congr fun w => and_congr_right fun _ => (hole_injective k).eq_iff

theorem left_iff {j : Nat} : crew'.Left (hole k j) ↔ crew.Left j := by
  rw [Left, Left, h.index_mem]
  refine and_congr_left fun _ => ?_
  rcases h.passing.ahead_or_beyond with hAhead | hBeyond
  · have hLe := hAhead.le
    rw [hAhead.launched]
    unfold hole
    split <;> omega
  · have hReached := hBeyond.reached
    rw [hBeyond.launched]
    unfold hole
    split <;> omega

/-- A `cat` never holds up the launch of a command. -/
theorem inOrder_iff : (∀ w' ∈ crew'.workers, w'.inOrder = false) ↔ ∀ w ∈ crew.workers, w.inOrder = false := by
  have hSame := h.workers.map (f := (·.inOrder)) (g := (·.inOrder)) fun w w' hTwin => by
    cases hTwin
    rfl
  have hOthers : (∀ w ∈ crew.workers, w.inOrder = false) ↔
      ∀ w' ∈ crew'.workers.filter (·.stage.index != k), w'.inOrder = false := by
    rw [← List.forall_mem_map (P := (· = false)), ← hSame, List.forall_mem_map]
  rw [hOthers]
  refine ⟨fun hAll w' hw' => hAll w' (List.mem_of_mem_filter hw'), fun hAll w' hw' => ?_⟩
  by_cases hIndex : w'.stage.index = k
  · have hMem : w' ∈ crew'.cats k := by simp [cats, hw', hIndex]
    cases h.passing with
    | ahead hAhead hLine hOwn hCats =>
      rw [hCats] at hMem
      cases hMem
    | unread hUnread =>
      rw [hUnread.cats] at hMem
      exact List.mem_singleton.mp hMem ▸ hUnread.copies.inOrder
    | taken hTaken =>
      rw [hTaken.cats] at hMem
      exact List.mem_singleton.mp hMem ▸ hTaken.copies.inOrder
    | passed hBeyond hLine hCats =>
      rw [hCats] at hMem
      cases hMem
  · exact hAll w' (List.mem_filter.mpr ⟨hw', by simpa using hIndex⟩)

theorem linger (hWorkers : crew.workers = before ++ w :: back) (hWorkers' : crew'.workers = before' ++ w' :: back')
    (hBefore : Worker.Twins k before before') (hBack : Worker.Twins k back back') {work work' : Work S}
    (hStage : w'.stage = w.stage.past k) (hOrder : w'.inOrder = w.inOrder) (hHolds : work.Holds w.stage pose)
    (hHolds' : work'.Holds w'.stage pose) (hPlain : pose.IsPlain) :
    Abreast ts k after n site { crew with workers := before ++ { w with work := work } :: back }
      { crew' with workers := before' ++ { w' with work := work' } :: back' } := by
  have hOther : w'.stage.index ≠ k := by
    rw [hStage, Stage.index_past]
    exact hole_ne k _
  have hTwin : Worker.Twin k { w with work := work } { w' with work := work' } := by
    rw [hStage] at hHolds' ⊢
    rw [hOrder]
    exact .intro hHolds hHolds' hPlain
  exact {
    flowing := h.flowing.on hWorkers h.flowing.line hHolds hPlain
    flowing' := h.flowing'.on hWorkers' h.flowing'.line hHolds' hPlain
    workers := hBefore.append (hBack.cons hTwin)
    refusal := h.refusal
    passing := by
      refine h.passing.alongside (fun hAhead => ⟨hAhead.launched, hAhead.pending⟩)
        (fun hBeyond => ⟨hBeyond.launched, hBeyond.pending, hBeyond.reached⟩) id rfl rfl ?_
      simp [cats, hWorkers', hOther] }

theorem turn (hk : k ≠ 0) (hMoving : Moving k n site crew crew' before back before' back' w w' pose)
    (hBefore : Worker.Twins k before before') (hBack : Worker.Twins k back back') (hOrder : w'.inOrder = w.inOrder)
    (hHolds : w.work.Holds w.stage pose) (hHolds' : w'.work.Holds w'.stage pose) (signal : Signal)
    (hOutlasts : pose.isDone = true → ∀ i ∈ crew.indices, w.stage.index ≤ i)
    (hOutlasts' : pose.isDone = true → ∀ i ∈ crew'.indices, w'.stage.index ≤ i) :
    Abreast ts k after n site (crew.turned before back w (pose.next w.stage signal crew.line))
      (crew'.turned before' back' w' (pose.next w'.stage signal crew'.line)) := by
  obtain ⟨hTurn, hPassing⟩ := h.passing.move hk hMoving signal
  refine ⟨h.flowing.turned hMoving.workers hHolds hMoving.plain signal hMoving.input hOutlasts,
    h.flowing'.turned hMoving.workers' hHolds' hMoving.plain signal hMoving.input' hOutlasts', ?_, ?_, hPassing⟩
  · have hw := Flowing.mem hMoving.workers
    cases hDone : pose.isDone with
    | true =>
      obtain ⟨result, desk, rfl⟩ := pose.eq_of_isDone hDone
      exact hBefore.append hBack
    | false =>
      obtain ⟨work, line, pose', hNext, hNow, hPlain', -⟩ :=
        Pose.next_keeps (S := S) hMoving.plain (h.flowing.workers w hw).builtin (h.flowing.not_host hw) hMoving.input
          (w.stage.keeps_true _) trivial hDone signal
      cases hNext' : pose.next (S := S) w'.stage signal crew'.line with
      | mk turn' line' =>
        rw [hNext, hNext'] at hTurn
        dsimp only at hTurn
        subst hTurn
        rw [hNext]
        refine hBefore.append (hBack.cons ?_)
        rw [hMoving.stage, hOrder]
        exact .intro (hNow _) (hNow _) hPlain'
  · rw [refusal_turned, refusal_turned, h.refusal]

theorem stop :
    Abreast ts k after n site { crew with line := crew.line.stop } { crew' with line := crew'.line.stop } where
  flowing := h.flowing.stop
  flowing' := h.flowing'.stop
  workers := h.workers
  refusal := h.refusal
  passing := h.passing.alongside (fun hAhead => ⟨hAhead.launched, hAhead.pending⟩)
    (fun hBeyond => ⟨hBeyond.launched, hBeyond.pending, hBeyond.reached⟩) Line.Alike.stop rfl rfl rfl

theorem due (hk : k ≠ 0) (hAfter : after ≠ []) {c : Command} {rest : List Command}
    (hPending : crew.pending = c :: rest) (hPast : crew.launched ≠ k ∨ Beyond k crew crew') :
    ∃ rest', Due k c rest rest' crew crew' := by
  rcases h.passing.ahead_or_beyond with hAhead | hBeyond
  · have hNext : crew.launched ≠ k := hPast.resolve_right hAhead.not_beyond
    obtain ⟨d, before, -, hDue⟩ := hAhead.due hAfter hNext
    obtain ⟨rfl, rfl⟩ := List.cons.inj (hPending.symm.trans hDue.pending)
    exact ⟨_, hDue⟩
  · exact ⟨rest, hBeyond.due hk hPending⟩

theorem due' (hk : k ≠ 0) (hAfter : after ≠ []) {c : Command} {rest' : List Command}
    (hPending' : crew'.pending = c :: rest') :
    Ahead k after crew crew' ∧ crew.launched = k ∨ ∃ rest, Due k c rest rest' crew crew' := by
  rcases h.passing.ahead_or_beyond with hAhead | hBeyond
  · by_cases hNow : crew.launched = k
    · exact .inl ⟨hAhead, hNow⟩
    · obtain ⟨d, before, -, hDue⟩ := hAhead.due hAfter hNow
      obtain ⟨rfl, rfl⟩ := List.cons.inj (hPending'.symm.trans hDue.pending')
      exact .inr ⟨_, hDue⟩
  · exact .inr ⟨rest', hBeyond.due hk (hBeyond.pending.symm.trans hPending')⟩

end Abreast

namespace Due

variable {v : Invoker} {output : Output} {c : Command} {rest rest' : List Command}
  (hDue : Due k c rest rest' crew crew')

include hDue

theorem ahead (h : Ahead k after crew crew') (hAfter : after ≠ []) {last last' : Crew S}
    (hPending : last.pending = rest) (hPending' : last'.pending = rest') (hLaunched : last.launched = crew.launched + 1)
    (hLaunched' : last'.launched = crew'.launched + 1) : Ahead k after last last' := by
  have hSame := h.launched
  have hNext : crew.launched ≠ k := by
    intro hNow
    have hShift := hDue.launched
    rw [shift_of_le (Nat.le_of_eq hNow.symm)] at hShift
    omega
  obtain ⟨d, before, hCount, hFound⟩ := h.due hAfter hNext
  obtain ⟨rfl, rfl⟩ := List.cons.inj (hDue.pending.symm.trans hFound.pending)
  obtain ⟨-, rfl⟩ := List.cons.inj (hDue.pending'.symm.trans hFound.pending')
  exact ⟨by omega, before, hPending, hPending', by omega⟩

theorem beyond (h : Beyond k crew crew') {last last' : Crew S} (hPending : last.pending = rest)
    (hPending' : last'.pending = rest') (hLaunched : last.launched = crew.launched + 1)
    (hLaunched' : last'.launched = crew'.launched + 1) : Beyond k last last' := by
  have hSame := h.launched
  have hReached := h.reached
  have hBoth : c :: rest' = c :: rest := hDue.pending'.symm.trans (h.pending.trans hDue.pending)
  exact ⟨by omega, by rw [hPending, hPending', (List.cons.inj hBoth).2], by omega⟩

variable (v output) in
theorem alike {e : Nat → Nat} {K : Nat → Prop} (h : crew.line.Alike ts e K crew'.line) :
    (v.launch output crew'.launched rest'.isEmpty c crew'.line).1 =
        (v.launch output crew.launched rest.isEmpty c crew.line).1.map (Launch.further (shift k crew.launched)) ∧
      (v.launch output crew.launched rest.isEmpty c crew.line).2.Alike ts e K
        (v.launch output crew'.launched rest'.isEmpty c crew'.line).2 := by
  rw [hDue.launched, hDue.isEmpty]
  exact v.launch_alike output hDue.first rest.isEmpty c h

variable (v output) in
/-- The command can be launched in both pipelines, or in neither. -/
theorem cases (h : Abreast ts k after n site crew crew') :
    (∃ start line line', v.launch output crew.launched rest.isEmpty c crew.line = (.ok start, line) ∧
        v.launch output crew'.launched rest'.isEmpty c crew'.line =
          (.ok (start.further (shift k crew.launched)), line')) ∨
      ∃ fault line line', v.launch output crew.launched rest.isEmpty c crew.line = (.error fault, line) ∧
        v.launch output crew'.launched rest'.isEmpty c crew'.line = (.error fault, line') := by
  obtain ⟨e, K, hAlike⟩ := h.passing.alike
  have hSame := (hDue.alike v output hAlike).1
  cases hLaunch : v.launch output crew.launched rest.isEmpty c crew.line with
  | mk reply line =>
    cases hLaunch' : v.launch output crew'.launched rest'.isEmpty c crew'.line with
    | mk reply' line' =>
      rw [hLaunch, hLaunch'] at hSame
      cases reply with
      | ok start =>
        obtain rfl : reply' = .ok (start.further (shift k crew.launched)) := hSame
        exact .inl ⟨start, line, line', rfl, rfl⟩
      | error fault =>
        obtain rfl : reply' = .error fault := hSame
        exact .inr ⟨fault, line, line', rfl, rfl⟩

theorem launch (h : Abreast ts k after n site crew crew') (hAfter : after ≠ []) {start : Launch} {line line' : Line}
    (hLaunch : v.launch output crew.launched rest.isEmpty c crew.line = (.ok start, line))
    (hLaunch' : v.launch output crew'.launched rest'.isEmpty c crew'.line =
      (.ok (start.further (shift k crew.launched)), line')) :
    Abreast ts k after n site
      { crew with
        line := line
        pending := rest
        launched := crew.launched + 1
        workers := crew.workers ++ [start.worker] }
      { crew' with
        line := line'
        pending := rest'
        launched := crew'.launched + 1
        workers := crew'.workers ++ [(start.further (shift k crew.launched)).worker] } := by
  have hFlowing := h.flowing.launch hDue.pending hLaunch
  have hPipes := congrArg Line.pipes (v.line_launch output crew.launched rest.isEmpty c crew.line)
  have hPipes' := congrArg Line.pipes (v.line_launch output crew'.launched rest'.isEmpty c crew'.line)
  obtain ⟨hIndex, -⟩ := v.stage_launch output crew.launched rest.isEmpty c crew.line (by rw [hLaunch])
  have hStage : (start.further (shift k crew.launched)).stage = start.stage.past k := by
    rw [← hIndex]
    rfl
  have hTwin : Worker.Twin (S := S) k start.worker (start.further (shift k crew.launched)).worker := by
    obtain ⟨pose, hHolds, hPlain⟩ := (hFlowing.workers start.worker (by simp)).pose
    cases hHolds
    rw [Launch.worker, Launch.worker, hStage]
    exact .intro .before .before hPlain
  have hOther : (start.further (shift k crew.launched)).stage.index ≠ k := by
    rw [hStage, Stage.index_past]
    exact hole_ne k _
  refine ⟨hFlowing, h.flowing'.launch hDue.pending' hLaunch', h.workers.append (.cons hTwin .nil), h.refusal,
    h.passing.alongside (hDue.ahead · hAfter rfl rfl rfl rfl) (hDue.beyond · rfl rfl rfl rfl) ?_ ?_ ?_ ?_⟩
  · intro e K hAlike
    have hLine := (hDue.alike v output hAlike).2
    rwa [hLaunch, hLaunch'] at hLine
  · rwa [hLaunch] at hPipes
  · rwa [hLaunch'] at hPipes'
  · simp [cats, Launch.worker, hOther]

theorem refuse (h : Abreast ts k after n site crew crew') {fault : Fault} {line line' : Line}
    (hLaunch : v.launch output crew.launched rest.isEmpty c crew.line = (.error fault, line))
    (hLaunch' : v.launch output crew'.launched rest'.isEmpty c crew'.line = (.error fault, line')) :
    Abreast ts k after n site { crew with line := { line with canceled := true }, refusal := some fault }
      { crew' with line := { line' with canceled := true }, refusal := some fault } := by
  have hPipes := congrArg Line.pipes (v.line_launch output crew.launched rest.isEmpty c crew.line)
  have hPipes' := congrArg Line.pipes (v.line_launch output crew'.launched rest'.isEmpty c crew'.line)
  refine ⟨h.flowing.refuse hLaunch, h.flowing'.refuse hLaunch', h.workers, rfl,
    h.passing.alongside (fun hAhead => ⟨hAhead.launched, hAhead.pending⟩)
      (fun hBeyond => ⟨hBeyond.launched, hBeyond.pending, hBeyond.reached⟩) ?_ ?_ ?_ rfl⟩
  · intro e K hAlike
    have hLine := (hDue.alike v output hAlike).2
    rw [hLaunch, hLaunch'] at hLine
    exact hLine.cancel
  · rwa [hLaunch] at hPipes
  · rwa [hLaunch'] at hPipes'

end Due

namespace Abreast

variable (h : Abreast ts k after n site crew crew') (hk : k ≠ 0)

include h hk

variable {v : Invoker} {output : Output}

variable (v output) in
theorem launch_cat (hAfter : after ≠ []) (hCat : site.1 "cat" = some (.concurrent Builtin.cat))
    (hAhead : Ahead k after crew crew') (hNow : crew.launched = k) :
    crew'.pending = .bareCat :: after ∧
      v.launch output crew'.launched after.isEmpty .bareCat crew'.line =
        (.ok (v.catLaunch output crew'.launched crew'.line), crew'.line) ∧
      Beyond k crew { crew' with
        pending := after
        launched := crew'.launched + 1
        workers := crew'.workers ++ [(v.catLaunch output crew'.launched crew'.line).worker] } ∧
      Abreast ts k after n site crew { crew' with
        pending := after
        launched := crew'.launched + 1
        workers := crew'.workers ++ [(v.catLaunch output crew'.launched crew'.line).worker] } := by
  obtain ⟨before, hPending, hPending', hCount⟩ := hAhead.pending
  obtain rfl : before = [] := List.length_eq_zero_iff.mp (by omega)
  have hSame := hAhead.launched
  have hHere : crew'.launched = k := by omega
  have hBuiltin : crew'.line.world.builtin? (Command.bareCat.args.headD "") = some (.concurrent Builtin.cat) := by
    have hSite := congrArg Prod.fst h.flowing'.line.site
    exact (congrFun hSite "cat").trans hCat
  have hLaunch : v.launch output crew'.launched after.isEmpty .bareCat crew'.line =
      (.ok (v.catLaunch output crew'.launched crew'.line), crew'.line) := by
    rw [show after.isEmpty = false by simp [hAfter]]
    exact v.launch_builtin output crew'.launched false hBuiltin rfl
  have hBeyond : Beyond k crew { crew' with
      pending := after
      launched := crew'.launched + 1
      workers := crew'.workers ++ [(v.catLaunch output crew'.launched crew'.line).worker] } :=
    ⟨congrArg (· + 1) hSame, hPending.symm, Nat.le_of_eq hNow.symm⟩
  have hWorkers : Worker.Twins k crew.workers (crew'.workers ++ []) := by
    rw [List.append_nil]
    exact h.workers
  refine ⟨hPending', hLaunch, hBeyond, h.flowing, h.flowing'.launch hPending' hLaunch, hWorkers.skip hHere, h.refusal,
    ?_⟩
  obtain ⟨hLine, hOwn, hCats⟩ := h.passing.of_ahead hAhead
  have hCopies : (v.catLaunch output crew'.launched crew'.line).worker.Copies (S := S) k .copying :=
    ⟨hHere, rfl, if_neg (hHere ▸ hk), rfl, rfl, .before⟩
  refine .unread ⟨hBeyond, hLine, hOwn, ?_, hCopies⟩
  unfold cats at hCats ⊢
  simp [hCats, hCopies.index]

omit h hk in
theorem split_cats (hWorkers : crew.workers = before ++ w :: back) (hIndex : w.stage.index = k) {u : Worker S}
    (hCats : crew.cats k = [u]) :
    u = w ∧ before.filter (·.stage.index == k) = [] ∧ back.filter (·.stage.index == k) = [] := by
  simp only [cats, hWorkers, List.filter_append, List.filter_cons, hIndex, beq_self_eq_true, if_true,
    List.append_eq_singleton_iff, List.cons.injEq, reduceCtorEq, and_false, or_false] at hCats
  exact ⟨hCats.2.1.symm, hCats.1, hCats.2.2⟩

omit hk in
theorem left_before_cat (hCats : crew'.cats k = [w']) {j : Nat} (hLeft : crew'.Left j) : j < k := by
  obtain ⟨hMem, rfl⟩ := mem_of_cats hCats
  exact h.flowing'.inTurn j hLeft _ (Flowing.index_mem hMem)

theorem input_cat (hCats : crew'.cats k = [w']) (hLeft : crew.Left (k - 1)) :
    ∃ data, crew'.line.pipe (k - 1) = .ofBytes data := by
  obtain ⟨hMem, hIndex⟩ := mem_of_cats hCats
  have hLe := h.flowing'.index_le hMem
  have hLeft' : crew'.Left (hole k (k - 1)) := h.left_iff.mpr hLeft
  rw [hole_of_lt (by omega)] at hLeft'
  exact h.flowing'.line.pipe_of_left (by omega) hLeft'

theorem copy (hUnread : Unread ts k crew crew' w') (hLeft : crew.Left (k - 1))
    (hWorkers' : crew'.workers = before' ++ w' :: back') (signal : Signal) :
    (∃ u, Taken ts k crew (crew'.turned before' back' w' (Pose.copying.next w'.stage signal crew'.line)) u) ∧
      Abreast ts k after n site crew
        (crew'.turned before' back' w' (Pose.copying.next w'.stage signal crew'.line)) := by
  obtain ⟨hBeyond, hLine, hOwn, hCats, hCopies⟩ := hUnread
  have hMem := Flowing.mem hWorkers'
  have hIndex := hCopies.index
  have hShort : k - 1 < n := by
    have hInner := h.flowing'.inner_lt hMem hCopies.isLast
    omega
  obtain ⟨data, hBefore⟩ := h.flowing.line.full (k - 1) hShort hLeft
  have hBefore' : crew'.line.pipes[k - 1]? = some (.ofBytes data) := by
    rw [← hBefore, ← hLine.pipes trivial, hole_of_lt (by omega)]
  have hRoom : crew'.line.broken.contains k = false := by
    rw [← Bool.not_eq_true, List.contains_iff_mem]
    intro hBroken
    have hAfter := h.left_before_cat hCats (h.flowing'.line.broken k hBroken)
    omega
  have hInner : w'.stage.IsInner := ⟨hCopies.isLast, fun _ => hIndex ▸ hk⟩
  have hFlowing := h.flowing'.turned hWorkers' hCopies.holds Pose.plain_copying signal
    (fun _ => hIndex ▸ h.input_cat hk hCats hLeft) (by rintro ⟨⟩)
  have hPerform := Stage.perform_relay_between ⟨.nothing, [], []⟩ .idle hInner hCopies.source hCopies.out
    (hIndex ▸ hBefore') (hIndex ▸ hOwn) (hIndex ▸ hRoom)
  have hNext : Pose.copying.next (S := S) w'.stage signal crew'.line =
      (.on (.ready (.done (.ok ())) ⟨.nothing, [], []⟩),
        (crew'.line.setPipe (k - 1) (.ofBytes [])).setPipe k (Feed.awaiting.add data)) := by
    change w'.stage.after _ (w'.stage.perform .idle ⟨.nothing, [], []⟩ crew'.line (.relay Filter.all)) = _
    rw [hPerform, hIndex]
    rfl
  rw [hNext] at hFlowing ⊢
  have hOwn' : ((crew'.line.setPipe (k - 1) (.ofBytes [])).setPipe k (Feed.awaiting.add data)).pipes[k]? =
      some (Feed.awaiting.add data) := by
    refine List.getElem?_set_self ?_
    rw [Line.setPipe, List.length_set]
    exact (List.getElem?_eq_some_iff.mp hOwn).1
  have hTaken : Taken ts k crew (crew'.turned before' back' w' (.on (.ready (.done (.ok ())) ⟨.nothing, [], []⟩),
      (crew'.line.setPipe (k - 1) (.ofBytes [])).setPipe k (Feed.awaiting.add data)))
      { w' with work := .ready (.done (.ok ())) ⟨.nothing, [], []⟩ } := by
    obtain ⟨-, hFront, hBack⟩ := split_cats hWorkers' hIndex hCats
    exact {
      beyond := ⟨hBeyond.launched, hBeyond.pending, hBeyond.reached⟩
      line := hLine.relayed _ _
      full := ⟨data, hBefore, hOwn'⟩
      cats := by simp [cats, turned, hFront, hBack, hIndex]
      copies := ⟨hIndex, hCopies.isLast, hCopies.source, hCopies.out, hCopies.inOrder, .before⟩ }
  have hWorkers := h.workers
  rw [hWorkers'] at hWorkers
  exact ⟨⟨_, hTaken⟩, h.flowing, hFlowing, (hWorkers.of_skip hIndex).skip hIndex, h.refusal, .taken hTaken⟩

theorem leave_cat (hTaken : Taken ts k crew crew' w') (hWorkers' : crew'.workers = before' ++ w' :: back')
    (hFirst : ∀ i ∈ crew'.indices, w'.stage.index ≤ i) (signal : Signal) :
    (crew'.turned before' back' w' (Pose.copied.next w'.stage signal crew'.line)).Left k ∧
      Abreast ts k after n site crew
        (crew'.turned before' back' w' (Pose.copied.next w'.stage signal crew'.line)) := by
  obtain ⟨hBeyond, hLine, ⟨data, hBefore, hOwn⟩, hCats, hCopies⟩ := hTaken
  have hIndex := hCopies.index
  have hFlowing := h.flowing'.turned hWorkers' hCopies.holds Pose.plain_copied signal False.elim fun _ => hFirst
  have hPast := hLine.past_relay ⟨.nothing, [], []⟩ hk hIndex hCopies.isLast rfl hBefore hOwn
    (fun i hi => h.left_before_cat hCats (h.flowing'.line.broken i hi)) h.flowing'.line.cancels
  have hNone : (crew'.turned before' back' w' (Pose.copied.next w'.stage signal crew'.line)).cats k = [] := by
    obtain ⟨-, hFront, hBack⟩ := split_cats hWorkers' hIndex hCats
    change (before' ++ back').filter (·.stage.index == k) = []
    rw [List.filter_append, hFront, hBack, List.append_nil]
  have hWorkers := h.workers
  rw [hWorkers'] at hWorkers
  refine ⟨⟨?_, not_mem_of_cats hNone⟩, h.flowing, hFlowing, hWorkers.of_skip hIndex, h.refusal,
    .passed ⟨hBeyond.launched, hBeyond.pending, hBeyond.reached⟩ hPast hNone⟩
  have hBelow := h.flowing'.below _ (Flowing.index_mem (Flowing.mem hWorkers'))
  rwa [launched_turned, ← hIndex]

omit hk in
theorem linger_cat (hCats : crew'.cats k = [w']) (hCopies : w'.Copies k pose) (hPlain : pose.IsPlain)
    (hWorkers' : crew'.workers = before' ++ w' :: back') {work : Work S} (hHolds : work.Holds w'.stage pose)
    (hPassing : ∀ {last' : Crew S} {u : Worker S}, last'.line = crew'.line → last'.launched = crew'.launched →
      last'.pending = crew'.pending → last'.cats k = [u] → u.Copies k pose → Passing ts k after crew last') :
    Abreast ts k after n site crew { crew' with workers := before' ++ { w' with work := work } :: back' } := by
  have hIndex := hCopies.index
  obtain ⟨-, hBefore, hBack⟩ := split_cats hWorkers' hIndex hCats
  have hWorkers := h.workers
  rw [hWorkers'] at hWorkers
  refine ⟨h.flowing, h.flowing'.on hWorkers' h.flowing'.line hHolds hPlain, (hWorkers.of_skip hIndex).skip hIndex,
    h.refusal, hPassing (u := { w' with work := work }) rfl rfl rfl ?_ ?_⟩
  · simp [cats, hBefore, hBack, hIndex]
  · exact ⟨hIndex, hCopies.isLast, hCopies.source, hCopies.out, hCopies.inOrder, hHolds⟩

end Abreast

end Abreast

end Pipework.Crew
