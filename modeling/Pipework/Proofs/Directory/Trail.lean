import Pipework.Proofs.Directory.Moves
import Pipework.Proofs.Schedule.Passage
import Pipework.Proofs.Schedule.Status

/-!
# Changes of the directory within a pipeline

A `cd` ends before the next command is launched. So the directory in which a stage works is that of the pipeline
after the changes among the stages before it, in whatever order the stages act. The invariant follows a `cd`
while it is at work, and says where the pipeline is when none is.
-/

namespace Pipework

/-- The directory in which stage `i` of a pipeline works, given how its stages ended: where the changes of the
directory that succeeded lead from `dir`, one after the other. -/
def trail (base dir : String) (commands : List Command) (ended : List (Nat × Option Failure)) : Nat → String
  | 0 => dir
  | i + 1 =>
    let before := trail base dir commands ended i
    match commands[i]? with
    | some c => if (i, none) ∈ ended then c.leads base before else before
    | none => before

section Trail

variable {base dir : String} {commands : List Command} {ended : List (Nat × Option Failure)} {i : Nat} {c : Command}

theorem trail_succ (hc : commands[i]? = some c) :
    trail base dir commands ended (i + 1) =
      if (i, none) ∈ ended then c.leads base (trail base dir commands ended i)
      else trail base dir commands ended i := by
  rw [trail, hc]

theorem trail_succ_of_not_isCd (hc : commands[i]? = some c) (h : ¬c.IsCd) :
    trail base dir commands ended (i + 1) = trail base dir commands ended i := by
  rw [trail_succ hc, Command.leads_of_not_isCd h]
  split <;> rfl

/-- Only the stages before `i` matter, and of these only whether a `cd` succeeded. -/
theorem trail_congr {commands' : List Command} {ended' : List (Nat × Option Failure)}
    (hCommands : ∀ j < i, commands'[j]? = commands[j]?)
    (hEnded : ∀ j < i, ∀ c, commands[j]? = some c → c.IsCd → ((j, none) ∈ ended' ↔ (j, none) ∈ ended)) :
    trail base dir commands' ended' i = trail base dir commands ended i := by
  induction i with
  | zero => rfl
  | succ i ih =>
    have hBefore := ih (fun j hj => hCommands j (by omega)) (fun j hj => hEnded j (by omega))
    have hHere := hCommands i (Nat.lt_succ_self i)
    cases hc : commands[i]? with
    | none =>
      rw [hc] at hHere
      rw [trail, trail, hHere, hc]
      exact hBefore
    | some c =>
      rw [hc] at hHere
      by_cases hIs : c.IsCd
      · rw [trail_succ hHere, trail_succ hc, hBefore]
        exact if_congr (hEnded i (Nat.lt_succ_self i) c hc hIs) rfl rfl
      · rw [trail_succ_of_not_isCd hHere hIs, trail_succ_of_not_isCd hc hIs]
        exact hBefore

theorem trail_of_le {k : Nat} (hLe : i ≤ k) (h : ∀ j, i ≤ j → (j, none) ∉ ended) :
    trail base dir commands ended k = trail base dir commands ended i := by
  induction k, hLe using Nat.le_induction with
  | base => rfl
  | succ k hLe ih =>
    cases hc : commands[k]? with
    | none =>
      rw [trail, hc]
      exact ih
    | some c =>
      rw [trail_succ hc, if_neg (h k hLe)]
      exact ih

end Trail

/-- The directories in which the stages of a pipeline work, by what happened so far. -/
def Chronicle.dirs {S : Type} (base dir : String) (commands : List Command) (chronicle : Chronicle S) : Nat → String :=
  trail base dir commands (endings (chronicle.map Prod.snd))

theorem Chronicle.dirs_concat {S : Type} {base dir : String} {commands : List Command} {chronicle : Chronicle S}
    {crew : Crew S} {event : Event} {i : Nat}
    (h : ∀ j < i, ∀ c, commands[j]? = some c → c.IsCd → event ≠ .ended j none) :
    dirs base dir commands (chronicle ++ [(crew, event)]) i = dirs base dir commands chronicle i := by
  refine trail_congr (fun _ _ => rfl) ?_
  intro j hj c hc hIs
  have hOther : (j, none) ∉ endings [event] := by
    rw [mem_endings, List.mem_singleton]
    exact Ne.symm (h j hj c hc hIs)
  rw [List.map_append, endings_append, List.mem_append]
  exact or_iff_left hOther

namespace Crew

variable {S : Type}

/-- The next command is stage `i`, and it is launched, or not, in the directory `dir`. -/
def Attempts (v : Invoker) (output : Output) (commands : List Command) (dir : String) (crew : Crew S) (i : Nat)
    (reply : Except Fault Launch) : Prop :=
  ∃ c rest line, crew.pending = c :: rest ∧ commands[i]? = some c ∧
    v.launch output i rest.isEmpty c crew.line = (reply, line) ∧ v.LaunchesIn dir i c crew.line (reply, line)

/-- The stages of a pipeline work in the directories `dirs`, as far as the event tells. -/
def Heeds (v : Invoker) (output : Output) (commands : List Command) (dirs : Nat → String) (crew : Crew S) :
    Event → Prop
  | .launched i => ∃ start, crew.Attempts v output commands (dirs i) i (.ok start)
  | .refused i fault _ => crew.Attempts v output commands (dirs i) i (.error fault)
  | .ended i result => ∃ c, commands[i]? = some c ∧ Failure.Shows (Invoker.located (dirs i) c.render) result
  | .acted _ | .stopped => True

theorem Heeds.congr {v : Invoker} {output : Output} {commands : List Command} {dirs dirs' : Nat → String}
    {crew : Crew S} {event : Event} (h : crew.Heeds v output commands dirs event)
    (hSame : ∀ i, event.stage? = some i → dirs' i = dirs i) : crew.Heeds v output commands dirs' event := by
  cases event with
  | launched i => simpa only [Heeds, hSame i rfl] using h
  | refused i fault canceled => simpa only [Heeds, hSame i rfl] using h
  | ended i result => simpa only [Heeds, hSame i rfl] using h
  | _ => trivial

def Settled (commands : List Command) (crew : Crew S) : Prop :=
  ∀ w ∈ crew.workers, ∀ c, commands[w.stage.index]? = some c → ¬c.IsCd

theorem settled_iff {commands : List Command} {crew : Crew S} {before after : List (Worker S)} {w : Worker S}
    (hWorkers : crew.workers = before ++ w :: after) :
    crew.Settled commands ↔ (∀ c, commands[w.stage.index]? = some c → ¬c.IsCd) ∧
      ∀ w' ∈ before ++ after, ∀ c, commands[w'.stage.index]? = some c → ¬c.IsCd := by
  unfold Settled
  rw [hWorkers, List.forall_mem_append, List.forall_mem_append, List.forall_mem_cons]
  exact and_left_comm

end Crew

section Underway

variable {C : Calls} {v : Invoker} (K : C.Keeps v.overlay) (output : Output) (commands : List Command)
  (s : Line.Status) (ground : (String → Option Builtin) × String) (dir : String)

/-- What is known of a stage while the directory `d` is in force. A `cd` is the stage that was launched last. -/
structure Worker.Placed (dirs : Nat → String) (launched : Nat) (d : String) (w : Worker C.State) : Prop where
  overlay : w.stage.overlay = v.overlay
  calls : ∀ call ∈ w.work.call?, K.Fits call
  command : ∃ c, commands[w.stage.index]? = some c ∧
    w.stage.shown = Invoker.located (dirs w.stage.index) c.render ∧
    (c.IsCd → w.inOrder = true ∧ w.stage.isProcess = false ∧ w.stage.index + 1 = launched ∧
      w.work.Moves ground.2 (dirs w.stage.index) c d)

/-- What is known of a pipeline that started in the directory `dir`, while the directory `d` is in force. -/
structure Crew.Underway (chronicle : Chronicle C.State) (d : String) (crew : Crew C.State) : Prop where
  tally : crew.Tally commands.length s (chronicle.map Prod.snd)
  pending : crew.pending = commands.drop crew.launched
  footing : crew.line.world.footing v.overlay = (some d, ground)
  placed : ∀ w ∈ crew.workers,
    w.Placed K commands ground (chronicle.dirs ground.2 dir commands) crew.launched d
  settled : crew.Settled commands → d = chronicle.dirs ground.2 dir commands crew.launched
  halted : crew.refusal.isSome = true → crew.Settled commands
  heeds : ∀ entry ∈ chronicle, entry.1.Heeds v output commands (chronicle.dirs ground.2 dir commands) entry.2

variable {K output commands s ground dir}

theorem Worker.Placed.congr {dirs dirs' : Nat → String} {launched launched' : Nat} {d d' : String}
    {w : Worker C.State} (h : w.Placed K commands ground dirs launched d)
    (hDirs : dirs' w.stage.index = dirs w.stage.index)
    (hSame : ∀ c, commands[w.stage.index]? = some c → c.IsCd → launched' = launched ∧ d' = d) :
    w.Placed K commands ground dirs' launched' d' := by
  obtain ⟨c, hc, hShown, hMoves⟩ := h.command
  refine ⟨h.overlay, h.calls, c, hc, ?_, ?_⟩
  · rwa [hDirs]
  · intro hIs
    obtain ⟨rfl, rfl⟩ := hSame c hc hIs
    rw [hDirs]
    exact hMoves hIs

section Placed

variable {mayCall : Prop} {dirs : Nat → String} {launched : Nat} {d : String} {w : Worker C.State}
  {line line' : Line} (h : w.Placed K commands ground dirs launched d) (hSteady : w.work.Steady)
  (hFooting : line.world.footing v.overlay = (some d, ground))
  (hKeeps : ∀ c, commands[w.stage.index]? = some c → ¬c.IsCd → w.work.Keeps v.overlay w.stage)

include h hSteady hFooting hKeeps

theorem Worker.Placed.act {work : Work C.State} (hActs : Acts C mayCall w.stage (.on w.work, line) (.on work, line')) :
    ∃ d', line'.world.footing v.overlay = (some d', ground) ∧
      Worker.Placed K commands ground dirs launched d' { w with work := work } ∧
      ∀ c, commands[w.stage.index]? = some c → ¬c.IsCd → d' = d := by
  obtain ⟨c, hc, hShown, hMoves⟩ := h.command
  by_cases hIs : c.IsCd
  · obtain ⟨hInOrder, hProcess, hLast, hWork⟩ := hMoves hIs
    rw [← h.overlay] at hFooting
    obtain ⟨d', hWork', hFooting'⟩ := hActs.moves hWork hProcess hFooting
    rw [h.overlay] at hFooting'
    refine ⟨d', hFooting', ⟨h.overlay, ?_, c, hc, hShown, fun _ => ⟨hInOrder, hProcess, hLast, hWork'⟩⟩, ?_⟩
    · rw [hWork'.call?_eq]
      rintro call ⟨⟩
    · intro c' hc' hNot
      obtain rfl := Option.some.inj (hc.symm.trans hc')
      exact absurd hIs hNot
  · have hId : (line.world.footing v.overlay).1.isSome = true := by rw [hFooting]; rfl
    obtain ⟨hSame, hCalls⟩ := hActs.footing K (hKeeps c hc hIs) hSteady h.calls hId
    exact ⟨d, hSame.trans hFooting, ⟨h.overlay, hCalls, c, hc, hShown, fun hCd => absurd hCd hIs⟩, fun _ _ _ => rfl⟩

theorem Worker.Placed.finish {result : Option Failure}
    (hActs : Acts C mayCall w.stage (.on w.work, line) (.ended result, line')) :
    ∃ c d', commands[w.stage.index]? = some c ∧
      Failure.Shows (Invoker.located (dirs w.stage.index) c.render) result ∧
      line'.world.footing v.overlay = (some d', ground) ∧ (¬c.IsCd → d' = d) ∧
      (c.IsCd → w.stage.index + 1 = launched ∧
        d' = if result = none then c.leads ground.2 (dirs w.stage.index) else dirs w.stage.index) := by
  obtain ⟨c, hc, hShown, hMoves⟩ := h.command
  have hShows : Failure.Shows (Invoker.located (dirs w.stage.index) c.render) result := hShown ▸ hActs.shows
  by_cases hIs : c.IsCd
  · obtain ⟨hInOrder, hProcess, hLast, hWork⟩ := hMoves hIs
    rw [← h.overlay] at hFooting
    have hFooting' : line'.world.footing w.stage.overlay = _ := hActs.moves hWork hProcess hFooting
    rw [h.overlay] at hFooting'
    exact ⟨c, _, hc, hShows, hFooting', fun hNot => absurd hIs hNot, fun _ => ⟨hLast, rfl⟩⟩
  · have hId : (line.world.footing v.overlay).1.isSome = true := by rw [hFooting]; rfl
    obtain ⟨hSame, -⟩ := hActs.footing K (hKeeps c hc hIs) hSteady h.calls hId
    exact ⟨c, d, hc, hShows, hSame.trans hFooting, fun _ => rfl, fun hCd => absurd hCd hIs⟩

end Placed

namespace Crew

variable {mayCall : Prop} {chronicle : Chronicle C.State} {d : String} {crew crew' : Crew C.State}

namespace Underway

variable (h : crew.Underway K output commands s ground dir chronicle d)

include h

/-- The next command is launched after every `cd` has ended. -/
theorem settled_of_order (hOrder : ∀ w ∈ crew.workers, w.inOrder = false) : crew.Settled commands := by
  intro w hw c hc hIs
  obtain ⟨c', hc', -, hMoves⟩ := (h.placed w hw).command
  obtain rfl : c' = c := Option.some.inj (hc'.symm.trans hc)
  have hInOrder := (hMoves hIs).1
  rw [hOrder w hw] at hInOrder
  cases hInOrder

theorem within {world : World} (hSame : world.footing v.overlay = crew.line.world.footing v.overlay) :
    (crew.within world).Underway K output commands s ground dir chronicle d where
  tally := h.tally.within world
  pending := h.pending
  footing := hSame.trans h.footing
  placed := h.placed
  settled := h.settled
  halted := h.halted
  heeds := h.heeds

theorem heeds_concat {event : Event}
    (hSame : ∀ i, i < crew.launched ∨ crew.refusal.isSome = true →
      (chronicle ++ [(crew, event)]).dirs ground.2 dir commands i = chronicle.dirs ground.2 dir commands i)
    (hNew : crew.Heeds v output commands ((chronicle ++ [(crew, event)]).dirs ground.2 dir commands) event) :
    ∀ entry ∈ chronicle ++ [(crew, event)],
      entry.1.Heeds v output commands ((chronicle ++ [(crew, event)]).dirs ground.2 dir commands) entry.2 := by
  refine List.forall_mem_append.mpr ⟨?_, List.forall_mem_singleton.mpr hNew⟩
  intro entry hEntry
  refine (h.heeds entry hEntry).congr ?_
  intro i hStage
  apply hSame i
  have hReach := h.tally.reach entry.2 (List.mem_map_of_mem hEntry) i hStage
  exact hReach.imp_right And.left

theorem next {c : Command} {rest : List Command} (hPending : crew.pending = c :: rest) :
    commands[crew.launched]? = some c ∧ rest = commands.drop (crew.launched + 1) ∧
      v.LaunchesIn d crew.launched c crew.line (v.launch output crew.launched rest.isEmpty c crew.line) := by
  have hDrop : commands.drop crew.launched = c :: rest := h.pending.symm.trans hPending
  have hDir : v.directory crew.line.world = d := World.directory_of_footing h.footing
  refine ⟨?_, ?_, ?_⟩
  · rw [← List.head?_drop, hDrop]
    rfl
  · rw [← List.tail_drop, hDrop]
    rfl
  · rw [← hDir]
    exact Invoker.launchesIn

theorem launch {c : Command} {rest : List Command} {start : Launch} {line : Line}
    (hCd : ground.1 "cd" = some ⟨true, Builtin.cd⟩) (hPending : crew.pending = c :: rest)
    (hRefusal : crew.refusal = none) (hOrder : ∀ w ∈ crew.workers, w.inOrder = false)
    (hLaunch : v.launch output crew.launched rest.isEmpty c crew.line = (.ok start, line)) :
    Underway K output commands s ground dir (chronicle ++ [(crew, .launched crew.launched)]) d
      { crew with
        line := line
        pending := rest
        launched := crew.launched + 1
        workers := crew.workers ++ [start.worker] } := by
  have hSettled := h.settled_of_order hOrder
  have hHere := h.settled hSettled
  obtain ⟨hc, hRest, hIn⟩ := h.next hPending
  obtain ⟨hIndex, -, -, hOverlay, -⟩ := v.stage_launch output crew.launched rest.isEmpty c crew.line (by rw [hLaunch])
  have hStage : (start.worker : Worker C.State).stage.index = crew.launched := hIndex
  have hFooting := v.footing_launch v.overlay output crew.launched rest.isEmpty c crew.line
  rw [hLaunch] at hFooting hIn
  have hDirs : ∀ i, (chronicle ++ [(crew, Event.launched crew.launched)]).dirs ground.2 dir commands i =
      chronicle.dirs ground.2 dir commands i := fun i => Chronicle.dirs_concat (by simp)
  have hDir : (chronicle ++ [(crew, Event.launched crew.launched)]).dirs ground.2 dir commands crew.launched = d :=
    (hDirs _).trans hHere.symm
  have hBuiltin : c.IsCd → crew.line.world.builtin? (c.args.headD "") = some ⟨true, Builtin.cd⟩ := by
    intro hIs
    have hGround : crew.line.world.builtin? = ground.1 := congrArg (fun f => f.2.1) h.footing
    rw [hIs, hGround]
    exact hCd
  constructor
  · rw [List.map_append]
    exact h.tally.launch hPending hRefusal hLaunch
  · exact hRest
  · exact hFooting.trans h.footing
  · refine List.forall_mem_append.mpr ⟨?_, List.forall_mem_singleton.mpr ?_⟩
    · intro w hw
      exact (h.placed w hw).congr (hDirs _) fun c hc hIs => absurd hIs (hSettled w hw c hc)
    · refine ⟨hOverlay, by rintro call ⟨⟩, c, ?_, ?_, ?_⟩
      · rw [hStage]
        exact hc
      · rw [hStage, hDir]
        exact hIn.shown
      · intro hIs
        obtain ⟨hInOrder, hProcess, hostInput, hTask⟩ := hIn.builtin_ok (hBuiltin hIs)
        have hWork : (start.worker : Worker C.State).work = .ready start.task start.desk := rfl
        rw [hStage, hDir, hWork, hTask]
        exact ⟨hInOrder, hProcess, rfl, Work.moves_cd hIs ground.2 d c.env hostInput start.desk⟩
  · intro hNow
    have hNot : ¬c.IsCd := by
      refine hNow start.worker (List.mem_append_right _ List.mem_cons_self) c ?_
      rw [hStage]
      exact hc
    have hNext : chronicle.dirs ground.2 dir commands (crew.launched + 1) =
        chronicle.dirs ground.2 dir commands crew.launched := trail_succ_of_not_isCd hc hNot
    rw [hDirs, hNext]
    exact hHere
  · intro hRefused
    rw [hRefusal] at hRefused
    cases hRefused
  · refine h.heeds_concat (fun i _ => hDirs i) ⟨start, c, rest, line, hPending, hc, hLaunch, ?_⟩
    rw [hDir]
    exact hIn

theorem refuse {c : Command} {rest : List Command} {fault : Fault} {line : Line} (hPending : crew.pending = c :: rest)
    (hOrder : ∀ w ∈ crew.workers, w.inOrder = false)
    (hLaunch : v.launch output crew.launched rest.isEmpty c crew.line = (.error fault, line)) :
    Underway K output commands s ground dir
      (chronicle ++ [(crew, .refused crew.launched fault crew.line.canceled)]) d
      { crew with line := { line with canceled := true }, refusal := some fault } := by
  have hSettled := h.settled_of_order hOrder
  have hHere := h.settled hSettled
  obtain ⟨hc, -, hIn⟩ := h.next hPending
  have hFooting := v.footing_launch v.overlay output crew.launched rest.isEmpty c crew.line
  rw [hLaunch] at hFooting hIn
  have hDirs : ∀ i, (chronicle ++ [(crew, Event.refused crew.launched fault crew.line.canceled)]).dirs ground.2 dir
      commands i = chronicle.dirs ground.2 dir commands i := fun i => Chronicle.dirs_concat (by simp)
  constructor
  · rw [List.map_append]
    exact h.tally.refuse hLaunch
  · exact h.pending
  · exact hFooting.trans h.footing
  · intro w hw
    exact (h.placed w hw).congr (hDirs _) fun _ _ _ => ⟨rfl, rfl⟩
  · exact fun _ => hHere.trans (hDirs _).symm
  · exact fun _ => hSettled
  · refine h.heeds_concat (fun i _ => hDirs i) ⟨c, rest, line, hPending, hc, hLaunch, ?_⟩
    rw [hDirs, ← hHere]
    exact hIn

theorem alone {before after : List (Worker C.State)} {w w' : Worker C.State}
    (hWorkers : crew.workers = before ++ w :: after) (hw' : w' ∈ before ++ after) {c c' : Command}
    (hc : commands[w.stage.index]? = some c) (hIs : c.IsCd) (hc' : commands[w'.stage.index]? = some c') :
    ¬c'.IsCd := by
  have hMem : w ∈ crew.workers := hWorkers ▸ List.mem_append_right before List.mem_cons_self
  have hMem' : w' ∈ crew.workers := by grind
  -- A `cd` at work is the stage that was launched last, of which there is only one.
  have hLast : ∀ {w : Worker C.State}, w ∈ crew.workers → ∀ {c : Command}, commands[w.stage.index]? = some c → c.IsCd →
      w.stage.index + 1 = crew.launched := by
    intro w hw c hc hIs
    obtain ⟨_, hSame, -, hMoves⟩ := (h.placed w hw).command
    obtain rfl := Option.some.inj (hSame.symm.trans hc)
    exact (hMoves hIs).2.2.1
  intro hIs'
  have hFirst := hLast hMem hc hIs
  have hSecond := hLast hMem' hc' hIs'
  have hNe := h.tally.ne_of_mem hWorkers hw'
  omega

theorem act {before after : List (Worker C.State)} {w : Worker C.State} {work : Work C.State} {line : Line}
    (hWorkers : crew.workers = before ++ w :: after)
    (hActs : Acts C mayCall w.stage (.on w.work, crew.line) (.on work, line))
    (hKeeps : ∀ c, commands[w.stage.index]? = some c → ¬c.IsCd → w.work.Keeps v.overlay w.stage) :
    ∃ d', Underway K output commands s ground dir (chronicle ++ [(crew, .acted w.stage.index)]) d'
      { crew with line := line, workers := before ++ { w with work := work } :: after } := by
  have hMem : w ∈ crew.workers := hWorkers ▸ List.mem_append_right before List.mem_cons_self
  have hDirs : ∀ i, (chronicle ++ [(crew, Event.acted w.stage.index)]).dirs ground.2 dir commands i =
      chronicle.dirs ground.2 dir commands i := fun i => Chronicle.dirs_concat (by simp)
  obtain ⟨d', hFooting, hPlaced, hSame⟩ := (h.placed w hMem).act (h.tally.steady w hMem) h.footing hKeeps hActs
  obtain ⟨c, hc, -⟩ := hPlaced.command
  have hStages : Settled commands { crew with line := line, workers := before ++ { w with work := work } :: after } ↔
      Settled commands crew := (settled_iff (w := { w with work := work }) rfl).trans (settled_iff hWorkers).symm
  refine ⟨d', ?_⟩
  constructor
  · rw [List.map_append]
    exact h.tally.act hWorkers hActs
  · exact h.pending
  · exact hFooting
  · have hOthers : ∀ w' ∈ before ++ after, w'.Placed K commands ground
        ((chronicle ++ [(crew, Event.acted w.stage.index)]).dirs ground.2 dir commands) crew.launched d' := by
      intro w' hw'
      have hMem' : w' ∈ crew.workers := by grind
      refine (h.placed w' hMem').congr (hDirs _) fun c' hc' hIs' => ⟨rfl, hSame c hc fun hIs => ?_⟩
      exact h.alone hWorkers hw' hc hIs hc' hIs'
    have hTurned := hPlaced.congr (hDirs w.stage.index) fun _ _ _ => ⟨rfl, rfl⟩
    grind
  · intro hNow
    have hBefore := hStages.mp hNow
    rw [hDirs, hSame c hc (hBefore w hMem c hc)]
    exact h.settled hBefore
  · exact fun hRefused => hStages.mpr (h.halted hRefused)
  · exact h.heeds_concat (fun i _ => hDirs i) trivial

theorem finish {before after : List (Worker C.State)} {w : Worker C.State} {result : Option Failure} {line : Line}
    (hWorkers : crew.workers = before ++ w :: after)
    (hActs : Acts C mayCall w.stage (.on w.work, crew.line) (.ended result, line))
    (hKeeps : ∀ c, commands[w.stage.index]? = some c → ¬c.IsCd → w.work.Keeps v.overlay w.stage) :
    ∃ d', Underway K output commands s ground dir (chronicle ++ [(crew, .ended w.stage.index result)]) d'
      { crew with line := line, workers := before ++ after } := by
  have hMem : w ∈ crew.workers := hWorkers ▸ List.mem_append_right before List.mem_cons_self
  have hOthers : ∀ w' ∈ before ++ after, w' ∈ crew.workers := by grind
  obtain ⟨c, d', hc, hShows, hFooting, hOther, hCd⟩ :=
    (h.placed w hMem).finish (h.tally.steady w hMem) h.footing hKeeps hActs
  -- What a `cd` has come to matters only for the stages after it, of which there are none yet.
  have hDirs : ∀ i, (c.IsCd → i ≤ w.stage.index) →
      (chronicle ++ [(crew, Event.ended w.stage.index result)]).dirs ground.2 dir commands i =
        chronicle.dirs ground.2 dir commands i := by
    intro i hBefore
    refine Chronicle.dirs_concat ?_
    rintro j hj c' hc' hIs hEvent
    cases hEvent
    obtain rfl := Option.some.inj (hc.symm.trans hc')
    exact absurd (hBefore hIs) (by omega)
  refine ⟨d', ?_⟩
  constructor
  · rw [List.map_append]
    exact h.tally.finish hWorkers hActs
  · exact h.pending
  · exact hFooting
  · intro w' hw'
    refine (h.placed w' (hOthers w' hw')).congr (hDirs _ ?_) ?_
    · intro hIs
      have hLast := (hCd hIs).1
      have hLt := h.tally.index_lt (hOthers w' hw')
      omega
    · intro c' hc' hIs'
      exact ⟨rfl, hOther fun hIs => h.alone hWorkers hw' hc hIs hc' hIs'⟩
  · intro hNow
    by_cases hIs : c.IsCd
    · obtain ⟨hLast, hMoved⟩ := hCd hIs
      have hEnded : (w.stage.index, none) ∈
          endings ((chronicle ++ [(crew, Event.ended w.stage.index result)]).map Prod.snd) ↔ result = none := by
        rw [List.map_append, endings_append, List.mem_append, or_iff_right (h.tally.not_mem_endings hMem none),
          mem_endings]
        simp [eq_comm]
      have hTrail := @trail_succ ground.2 dir commands
        (endings ((chronicle ++ [(crew, Event.ended w.stage.index result)]).map Prod.snd)) w.stage.index c hc
      have hHere := hDirs w.stage.index fun _ => Nat.le_refl _
      unfold Chronicle.dirs at hHere ⊢
      rw [← hLast, hTrail, hHere, hMoved]
      exact if_congr hEnded.symm rfl rfl
    · have hBefore : crew.Settled commands := by
        refine (settled_iff hWorkers).mpr ⟨?_, hNow⟩
        intro c' hc'
        rwa [← Option.some.inj (hc.symm.trans hc')]
      rw [hOther hIs, hDirs _ fun hNot => absurd hNot hIs]
      exact h.settled hBefore
  · exact fun hRefused w' hw' => h.halted hRefused w' (hOthers w' hw')
  · refine h.heeds_concat ?_ ⟨c, hc, ?_⟩
    · intro i hi
      refine hDirs i fun hIs => ?_
      rcases hi with hLt | hRefused
      · have hLast := (hCd hIs).1
        omega
      · exact absurd hIs (h.halted hRefused w hMem c hc)
    · rw [hDirs _ fun _ => Nat.le_refl _]
      exact hShows

theorem step {event : Event} (hCd : ground.1 "cd" = some ⟨true, Builtin.cd⟩)
    (hKeeps : ∀ w ∈ crew.workers, ∀ c, commands[w.stage.index]? = some c → ¬c.IsCd → w.work.Keeps v.overlay w.stage)
    (hStep : Step v output C mayCall crew event crew') :
    ∃ d', Underway K output commands s ground dir (chronicle ++ [(crew, event)]) d' crew' := by
  cases hStep with
  | launch hPending hRefusal hOrder hLaunch => exact ⟨d, h.launch hCd hPending hRefusal hOrder hLaunch⟩
  | refuse hPending hRefusal hOrder hLaunch => exact ⟨d, h.refuse hPending hOrder hLaunch⟩
  | @act before after w work line hWorkers hActs =>
    exact h.act hWorkers hActs (hKeeps w (hWorkers ▸ List.mem_append_right before List.mem_cons_self))
  | @finish before after w result line hWorkers hActs =>
    exact h.finish hWorkers hActs (hKeeps w (hWorkers ▸ List.mem_append_right before List.mem_cons_self))
  | stop =>
    have hDirs : ∀ i, (chronicle ++ [(crew, Event.stopped)]).dirs ground.2 dir commands i =
        chronicle.dirs ground.2 dir commands i := fun i => Chronicle.dirs_concat (by simp)
    refine ⟨d, ?_, h.pending, h.footing, ?_, ?_, h.halted, h.heeds_concat (fun i _ => hDirs i) trivial⟩
    · rw [List.map_append]
      exact h.tally.stop
    · exact fun w hw => (h.placed w hw).congr (hDirs _) fun _ _ _ => ⟨rfl, rfl⟩
    · exact fun hNow => (h.settled hNow).trans (hDirs _).symm

theorem directory_of_isOver (hOver : crew.IsOver) : d = chronicle.dirs ground.2 dir commands commands.length := by
  have hSettled : crew.Settled commands := by
    unfold Settled
    rw [hOver.1]
    rintro w ⟨⟩
  have hCount := h.tally.count
  have hRest : chronicle.dirs ground.2 dir commands commands.length =
      chronicle.dirs ground.2 dir commands crew.launched := by
    apply trail_of_le
    · omega
    · intro j hLe hEnded
      have hLt := h.tally.lt_of_mem_endings hEnded
      omega
  exact (h.settled hSettled).trans hRest.symm

end Underway

theorem Underway.start {line : Line} (hFooting : line.world.footing v.overlay = (some dir, ground)) :
    (start commands line).Underway K output commands line.status ground dir [] dir where
  tally := Tally.start commands line
  pending := rfl
  footing := hFooting
  placed := by rintro w ⟨⟩
  settled := fun _ => rfl
  halted := by rintro ⟨⟩
  heeds := by rintro entry ⟨⟩

/-- No stage but a `cd` is about to set the directory of the overlay `id`, or to run a script on it. -/
def OthersKeep {S : Type} (id : Nat) (commands : List Command) (crew : Crew S) : Prop :=
  ∀ w ∈ crew.workers, ∀ c, commands[w.stage.index]? = some c → ¬c.IsCd → w.work.Keeps id w.stage

theorem Passage.underway {apart : World → World → Prop} {first last : Crew C.State}
    (h : Passage v output C mayCall apart first chronicle last) (hCd : ground.1 "cd" = some ⟨true, Builtin.cd⟩)
    (hApart : ∀ w w', apart w w' → w'.footing v.overlay = w.footing v.overlay)
    (hFirst : first.Underway K output commands s ground dir [] d)
    (hOthers : ∀ entry ∈ chronicle, entry.1.OthersKeep v.overlay commands) :
    ∃ d', last.Underway K output commands s ground dir chronicle d' := by
  induction h with
  | start => exact ⟨d, hFirst⟩
  | @step chronicle crew crew' event hPassage hStep ih =>
    obtain ⟨hBefore, hHere⟩ := List.forall_mem_append.mp hOthers
    obtain ⟨d', hUnderway⟩ := ih hBefore
    exact hUnderway.step hCd (List.forall_mem_singleton.mp hHere) hStep
  | outside hPassage hOutside ih =>
    obtain ⟨d', hUnderway⟩ := ih hOthers
    exact ⟨d', hUnderway.within (hApart _ _ hOutside)⟩

end Crew

end Underway

namespace Crew

variable {v : Invoker} {output : Output} {allowed : Nat → Prop} {depth : Nat} {mayCall : Prop}
  {apart : World → World → Prop} {p : Pipeline} {phase : Invoker.Phase}
  {chronicle : Chronicle (calls v.programs allowed depth).State} {crew : Crew (calls v.programs allowed depth).State}

/-- Each stage works in the directory to which the successful `cd`s before it lead, and is shown with it if it fails,
in whatever order the stages act. Nothing at or after the stage matters for that. The next pipeline starts where
all of them lead. Stages other than `cd` do not set the directory, and run scripts on other overlays only. -/
theorem directories_in_order (hCd : phase.world.builtin? "cd" = some ⟨true, Builtin.cd⟩)
    (hOverlay : v.overlay < phase.world.overlays.length)
    (hApart : ∀ w w', apart w w' → w'.footing v.overlay = w.footing v.overlay)
    (hPassage : Passage v output (calls v.programs allowed depth) mayCall apart
      (start p.commands (v.openLine p { phase with world := v.traced p phase.world })) chronicle crew)
    (hOthers : ∀ entry ∈ chronicle, entry.1.OthersKeep v.overlay p.commands) :
    let ended := endings (chronicle.map Prod.snd)
    let dirs := trail phase.world.host.workDirectory (v.directory phase.world) p.commands ended
    (∀ entry ∈ chronicle, entry.1.Heeds v output p.commands dirs entry.2) ∧
      (∀ i commands' ended', (∀ j < i, commands'[j]? = p.commands[j]?) →
        (∀ j < i, (j, none) ∈ ended' ↔ (j, none) ∈ ended) →
        trail phase.world.host.workDirectory (v.directory phase.world) commands' ended' i = dirs i) ∧
      (crew.IsOver → ∀ q : Pipeline,
        let after := Invoker.closeLine phase crew.line
        v.directory (v.openLine q { after with world := v.traced q after.world }).world = dirs p.commands.length) := by
  intro ended dirs
  let K := calls.keeps v.programs allowed v.overlay depth
  let line := v.openLine p { phase with world := v.traced p phase.world }
  have hFooting : line.world.footing v.overlay = (some (v.directory phase.world), phase.world.ground) :=
    (World.footing_congr (v.overlays_traced p phase.world) (v.ground_traced p phase.world)).trans
      (World.footing_eq hOverlay)
  obtain ⟨d, hUnderway⟩ := hPassage.underway (K := K) hCd hApart (.start hFooting) hOthers
  refine ⟨hUnderway.heeds, ?_, ?_⟩
  · intro i commands' ended' hCommands hEnded
    exact trail_congr hCommands fun j hj _ _ _ => hEnded j hj
  · intro hOver q after
    have hNext : (v.traced q crew.line.world).footing v.overlay = crew.line.world.footing v.overlay :=
      World.footing_congr (v.overlays_traced q crew.line.world) (v.ground_traced q crew.line.world)
    have hDirectory : v.directory (v.traced q crew.line.world) = d :=
      World.directory_of_footing (hNext.trans hUnderway.footing)
    exact hDirectory.trans (hUnderway.directory_of_isOver hOver)

/-- `cd a | true` in the directory `/`, within which there is a directory `a`. -/
def entering : Pipeline := ⟨[.cd ["a"], ⟨["true"], [], []⟩], false, "", 1⟩

def enteringPhase : Invoker.Phase :=
  ⟨{ World.bench [(directoryVar, "/")] with memory := ⟨[(["a"], .directory)]⟩ }, .opened, false, false⟩

theorem passage_entering :
    ∃ (chronicle : Chronicle Calls.tooDeep.State) (crew next : Crew Calls.tooDeep.State),
      Passage .bench .host .tooDeep False (fun _ _ => False)
        (start entering.commands (Invoker.bench.openLine entering enteringPhase)) chronicle crew ∧
      (∀ entry ∈ chronicle, entry.1.OthersKeep 0 entering.commands) ∧ crew.IsOver ∧
      (next, .launched 1) ∈ chronicle ∧ endings (chronicle.map Prod.snd) = [(0, none), (1, none)] := by
  let line : Line := Invoker.bench.openLine entering enteringPhase
  let truth : Command := ⟨["true"], [], []⟩
  let first : Launch := Invoker.bench.builtinLaunch .host 0 false (.cd ["a"]) line ⟨true, Builtin.cd⟩
  let desk : Desk := ⟨.nothing, [], []⟩
  let setting : Program (Except Fault Unit) := .act (.assign directoryVar "/a") fun _ => .done (.ok ())
  let crew (line : Line) (task : Program (Except Fault Unit)) : Crew Calls.tooDeep.State :=
    ⟨line, [truth], 1, [⟨first.stage, true, .ready task desk⟩], none⟩
  let moved : Line := line.setting 0 directoryVar "/a"
  let free : Line := first.stage.close none desk moved
  let second : Launch := Invoker.bench.builtinLaunch .host 1 true truth free (.concurrent fun _ => pure ())
  let next : Crew Calls.tooDeep.State := ⟨free, [truth], 1, [], none⟩
  let busy : Crew Calls.tooDeep.State := ⟨free, [], 2, [second.worker], none⟩
  let last : Crew Calls.tooDeep.State := ⟨second.stage.close none desk free, [], 2, [], none⟩
  have hTask : first.task = Builtin.cdTo "/a" := by
    have hDir : Invoker.bench.directory line.world = "/" := by decide +kernel
    have hHeading : Path.heading "/" "/" "a" = "/a" := by decide +kernel
    have hCd := Builtin.cd_known "cd" "a" [] "/" true (.inr (by decide)) "/"
    rw [hHeading, ← hDir] at hCd
    exact hCd
  have hLaunched : Step .bench .host .tooDeep False (start entering.commands line) (.launched 0)
      (crew line (Builtin.cdTo "/a")) := by
    have hLaunch := @Step.launch .bench .host .tooDeep False (start entering.commands line) (.cd ["a"]) [truth] first
      line rfl rfl (by simp [start]) (Invoker.bench.launch_builtin .host 0 false rfl rfl)
    have hWorker : (first.worker : Worker Calls.tooDeep.State) = ⟨first.stage, true, .ready (Builtin.cdTo "/a") desk⟩ :=
      congrArg (fun task => (⟨first.stage, true, .ready task desk⟩ : Worker Calls.tooDeep.State)) hTask
    rw [hWorker] at hLaunch
    exact hLaunch
  have hFound : (line.world.serve .shell (.isDirectory "/a")).1 = .ok .nothing := by decide +kernel
  have hLooked : Step .bench .host .tooDeep False (crew line (Builtin.cdTo "/a")) (.acted 0) (crew line setting) :=
    @Step.act .bench .host .tooDeep False (crew line (Builtin.cdTo "/a")) [] [] _ _ line rfl
      (.looks (nestedRun [] 0) desk hFound)
  have hSet : Step .bench .host .tooDeep False (crew line setting) (.acted 0) (crew moved (.done (.ok ()))) :=
    @Step.act .bench .host .tooDeep False (crew line setting) [] [] _ _ moved rfl (.act (nestedRun [] 0) rfl)
  have hEnded : Step .bench .host .tooDeep False (crew moved (.done (.ok ()))) (.ended 0 none) next :=
    @Step.finish .bench .host .tooDeep False (crew moved (.done (.ok ()))) [] [] _ none free rfl .finish
  have hNext : Step .bench .host .tooDeep False next (.launched 1) busy :=
    @Step.launch .bench .host .tooDeep False next truth [] second free rfl rfl (by simp [next])
      (Invoker.bench.launch_builtin .host 1 true rfl rfl)
  have hLast : Step .bench .host .tooDeep False busy (.ended 1 none) last :=
    @Step.finish .bench .host .tooDeep False busy [] [] second.worker none _ rfl .finish
  let chronicle : Chronicle Calls.tooDeep.State :=
    [(start entering.commands line, .launched 0), (crew line (Builtin.cdTo "/a"), .acted 0),
      (crew line setting, .acted 0), (crew moved (.done (.ok ())), .ended 0 none), (next, .launched 1),
      (busy, .ended 1 none)]
  have hPassage : Passage .bench .host .tooDeep False (fun _ _ => False) (start entering.commands line) chronicle
      last :=
    .step (.step (.step (.step (.step (.step .start hLaunched) hLooked) hSet) hEnded) hNext) hLast
  have hOthers : ∀ entry ∈ chronicle, entry.1.OthersKeep 0 entering.commands := by
    have hMoves : ∀ line task, (crew line task).OthersKeep 0 entering.commands := by
      intro line task
      refine List.forall_mem_singleton.mpr ?_
      rintro c ⟨⟩ hNot
      exact absurd rfl hNot
    refine List.forall_mem_cons.mpr ⟨by rintro w ⟨⟩, ?_⟩
    refine List.forall_mem_cons.mpr ⟨hMoves _ _, List.forall_mem_cons.mpr ⟨hMoves _ _, ?_⟩⟩
    refine List.forall_mem_cons.mpr ⟨hMoves _ _, List.forall_mem_cons.mpr ⟨by rintro w ⟨⟩, ?_⟩⟩
    exact List.forall_mem_singleton.mpr (List.forall_mem_singleton.mpr fun _ _ _ => trivial)
  exact ⟨chronicle, last, next, hPassage, hOthers, ⟨rfl, .inl rfl⟩, by simp [chronicle], rfl⟩

/-- The second stage works in the directory `/a`, and so does the next pipeline. -/
theorem directories_in_order_entering :
    ∃ (chronicle : Chronicle Calls.tooDeep.State) (crew next : Crew Calls.tooDeep.State),
      Passage .bench .host .tooDeep False (fun _ _ => False)
        (start entering.commands (Invoker.bench.openLine entering enteringPhase)) chronicle crew ∧
      (∀ entry ∈ chronicle, entry.1.OthersKeep 0 entering.commands) ∧ crew.IsOver ∧
      (next, .launched 1) ∈ chronicle ∧
      (∃ start, next.Attempts .bench .host entering.commands "/a" 1 (.ok start)) ∧
      ∀ q, let after := Invoker.closeLine enteringPhase crew.line
        Invoker.bench.directory
          (Invoker.bench.openLine q { after with world := Invoker.bench.traced q after.world }).world = "/a" := by
  obtain ⟨chronicle, crew, next, hPassage, hOthers, hOver, hMem, hEndings⟩ := passage_entering
  have hTraced : Invoker.bench.traced entering enteringPhase.world = enteringPhase.world := by
    have hOff : Invoker.bench.flag enteringPhase.world debugVar = false := by decide +kernel
    rw [Invoker.traced, hOff]
    rfl
  have hBegun : Passage .bench .host .tooDeep False (fun _ _ => False) (start entering.commands
      (Invoker.bench.openLine entering
        { enteringPhase with world := Invoker.bench.traced entering enteringPhase.world })) chronicle crew := by
    rw [hTraced]
    exact hPassage
  obtain ⟨hHeeds, -, hAfter⟩ := @directories_in_order .bench .host (fun _ => False) 0 False (fun _ _ => False) entering
    enteringPhase chronicle crew rfl (by decide) (by simp) hBegun hOthers
  let dirs (ended : List (Nat × Option Failure)) := trail enteringPhase.world.host.workDirectory
    (Invoker.bench.directory enteringPhase.world) entering.commands ended
  have hDirs : dirs [(0, none), (1, none)] 1 = "/a" ∧ dirs [(0, none), (1, none)] 2 = "/a" := by decide +kernel
  rw [← hEndings] at hDirs
  refine ⟨chronicle, crew, next, hPassage, hOthers, hOver, hMem, ?_, ?_⟩
  · rw [← hDirs.1]
    exact hHeeds (next, .launched 1) hMem
  · exact fun q => (hAfter hOver q).trans hDirs.2

end Crew

end Pipework
