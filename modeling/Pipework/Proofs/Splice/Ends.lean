import Pipework.Proofs.Splice.Flowing

/-!
# Orderly courses come to an end

Stages of plain builtins need not wait for each other for ever. The first of those at work finds its pipe at its end,
so that it can be gone on with until it leaves; when none is left the next command can be launched.
-/

namespace Pipework.Crew

variable {v : Invoker} {output : Output} {C : Calls} {mayCall stops : Prop} {n : Nat}
  {site : (String → Option Builtin) × Bool} {crew : Crew C.State} {back : List (Worker C.State)} {w : Worker C.State}
  {pose : Pose}

namespace Flowing

theorem left_earlier (h : crew.Flowing n site) {i j : Nat} (hLeft : crew.Left j) (hij : i ≤ j) : crew.Left i := by
  have hLaunched := hLeft.1
  refine ⟨by omega, fun hi => ?_⟩
  have hLater := h.inTurn j hLeft i hi
  omega

theorem left_of_outlasts (h : crew.Flowing n site) (hw : w ∈ crew.workers)
    (hOutlasts : ∀ i ∈ crew.indices, w.stage.index ≤ i) {j : Nat} (hj : j < w.stage.index) : crew.Left j := by
  have hBelow := h.below _ (index_mem hw)
  refine ⟨by omega, fun hMem => ?_⟩
  have hLater := hOutlasts j hMem
  omega

theorem first (h : crew.Flowing n site) (hWorkers : crew.workers = w :: back) :
    ∀ i ∈ crew.indices, w.stage.index ≤ i := by
  have hSorted := h.sorted
  rw [indices, hWorkers, List.map_cons] at hSorted ⊢
  exact List.forall_mem_cons.mpr ⟨Nat.le_refl _, fun i hi => Nat.le_of_lt (List.rel_of_pairwise_cons hSorted hi)⟩

theorem input_first (h : crew.Flowing n site) (hWorkers : crew.workers = w :: back) (hReads : pose.Reads w.stage) :
    ∃ data, crew.line.pipe (w.stage.index - 1) = .ofBytes data := by
  have hw : w ∈ crew.workers := hWorkers ▸ List.mem_cons_self
  have hIndex := (h.workers w hw).source hReads.source
  exact h.line.pipe_of_left (h.before_lt hw hReads.source) (h.left_of_outlasts hw (h.first hWorkers) (by omega))

variable (v output mayCall stops) in
theorem orders_first (h : crew.Flowing n site) (hWorkers : crew.workers = w :: back)
    (hHolds : w.work.Holds w.stage pose) (hPlain : pose.IsPlain) :
    Orders v output C mayCall stops crew (crew.turned [] back w (pose.next w.stage .ready crew.line)) ∧
      Flowing n site (crew.turned [] back w (pose.next w.stage .ready crew.line)) :=
  ⟨h.orders hWorkers hHolds hPlain .ready (by rintro ⟨⟩) (h.input_first hWorkers) fun _ => h.first hWorkers,
    h.turned hWorkers hHolds hPlain .ready (h.input_first hWorkers) fun _ => h.first hWorkers⟩

/-- The first of the stages at work can go on until it leaves. It does what it would do if it ran alone. -/
theorem leaves_before {program : Program (Except Fault Unit)} {desk : Desk} (h : crew.Flowing n site)
    (hWorkers : crew.workers = w :: back) (hHolds : w.work.Holds w.stage (.before program desk))
    (hPlain : (Pose.before program desk).IsPlain) :
    Orderly v output C mayCall stops crew
      { crew with line := (w.stage.run .idle program desk crew.line).complete.2, workers := back } := by
  induction program generalizing crew w desk with
  | done result => exact .single (h.orders_first v output mayCall stops hWorkers hHolds hPlain).1
  | act action next ih =>
    obtain ⟨hFirst, hFlowing⟩ := h.orders_first v output mayCall stops hWorkers hHolds hPlain
    have hw : w ∈ crew.workers := hWorkers ▸ List.mem_cons_self
    have hInput : (Pose.before (.act action next) desk).Reads w.stage → _ := h.input_first hWorkers
    have hReply : Reply.IsPlain (fun _ => True) (w.stage.perform .idle desk crew.line action) :=
      Stage.perform_plain (h.workers w hw).builtin (w.stage.keeps_true True) trivial hPlain.2 .idle hPlain.1.1
        (fun _ _ => trivial) (fun hSource hTakes => hInput ⟨hSource, hTakes⟩) (h.not_host hw)
    dsimp only [Pose.next] at hFirst hFlowing
    unfold Stage.run
    cases hPerform : w.stage.perform .idle desk crew.line action with
    | done x line =>
      obtain ⟨desk', answer⟩ := x
      rw [hPerform] at hReply hFirst hFlowing
      obtain ⟨hSome, hFeed, -⟩ := hReply
      obtain ⟨answer, rfl⟩ := Option.isSome_iff_exists.mp hSome
      let w' : Worker C.State := { w with work := .ready (next answer) desk' }
      have hRest := ih answer (w := w') hFlowing rfl .before ⟨hPlain.1.2 answer, hFeed⟩
      exact .head hFirst hRest
    | wait why line resume =>
      rw [hPerform] at hReply hFirst hFlowing
      obtain ⟨-, desk', answer, hFeed, rfl⟩ := hReply
      let pose : Pose := .offering answer next desk'
      have hOffering : pose.IsPlain := ⟨hPlain.1, hFeed⟩
      obtain ⟨hSecond, hFlowing'⟩ := hFlowing.orders_first v output mayCall stops rfl .offering hOffering
      let w' : Worker C.State := { w with work := .ready (next (answer .ready)) desk' }
      have hRest := ih (answer .ready) (w := w') hFlowing' rfl .before ⟨hPlain.1.2 _, hFeed⟩
      exact .head hFirst (.head hSecond hRest)

variable (v output mayCall stops) in
theorem leaves (h : crew.Flowing n site) (hWorkers : crew.workers = w :: back) :
    ∃ line, Orderly v output C mayCall stops crew { crew with line := line, workers := back } := by
  have hw : w ∈ crew.workers := hWorkers ▸ List.mem_cons_self
  obtain ⟨pose, hHolds, hPlain⟩ := (h.workers w hw).pose
  cases pose with
  | before program desk => exact ⟨_, h.leaves_before hWorkers hHolds hPlain⟩
  | offering answer next desk =>
    obtain ⟨hFirst, hFlowing⟩ := h.orders_first v output mayCall stops hWorkers hHolds hPlain
    exact ⟨_, .head hFirst (hFlowing.leaves_before rfl .before ⟨hPlain.1.2 _, hPlain.2⟩)⟩

variable (v output mayCall stops) in
/-- An orderly course can be gone on with until it is over. -/
theorem ends (h : crew.Flowing n site) : ∃ last, Orderly v output C mayCall stops crew last ∧ last.IsOver := by
  induction hMeasure : 2 * crew.pending.length + crew.workers.length using Nat.strongRecOn generalizing crew with
  | ind m ih =>
    subst hMeasure
    cases hWorkers : crew.workers with
    | cons w back =>
      obtain ⟨line, hCourse⟩ := h.leaves v output mayCall stops hWorkers
      obtain ⟨last, hRest, hOver⟩ := ih _ (by simp [hWorkers]) (h.orderly hCourse) rfl
      exact ⟨last, hCourse.trans hRest, hOver⟩
    | nil =>
      have hOrder : ∀ w ∈ crew.workers, w.inOrder = false := by simp [hWorkers]
      cases hPending : crew.pending with
      | nil => exact ⟨crew, .refl, hWorkers, .inl hPending⟩
      | cons c rest =>
        cases hRefusal : crew.refusal with
        | some fault => exact ⟨crew, .refl, hWorkers, .inr (by rw [hRefusal]; rfl)⟩
        | none =>
          cases hLaunch : v.launch output crew.launched rest.isEmpty c crew.line with
          | mk reply line =>
            cases reply with
            | error fault =>
              exact ⟨_, .single (.refuse hPending hRefusal hOrder hLaunch), hWorkers, .inr rfl⟩
            | ok start =>
              have hStep : Orders v output C mayCall stops crew _ := .launch hPending hRefusal hOrder hLaunch
              obtain ⟨last, hRest, hOver⟩ := ih _ (by simp [hWorkers, hPending]; omega) (h.next hStep) rfl
              exact ⟨last, .head hStep hRest, hOver⟩

end Flowing

end Pipework.Crew
