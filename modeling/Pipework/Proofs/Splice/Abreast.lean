import Pipework.Proofs.Flags.Crew
import Pipework.Proofs.Splice.Cat
import Pipework.Proofs.Splice.Flowing

/-!
# A pipeline abreast of one with a `cat` in it

A `cat` that is put into a pipeline as stage `k` first finds its pipe open, then it has taken what was in there, and
then it has left. Until it leaves, the pipe after it is the additional one; from then on the pipe before it is. All
other stages are at the same place in both pipelines meanwhile.
-/

namespace Pipework

/-- By how many places stage `i` is further on with one more stage before stage `k`. -/
def shift (k i : Nat) : Nat := if i < k then 0 else 1

theorem shift_of_lt {k i : Nat} (h : i < k) : shift k i = 0 := if_pos h

theorem shift_of_le {k i : Nat} (h : k ≤ i) : shift k i = 1 := if_neg (Nat.not_lt.mpr h)

theorem hole_eq (k i : Nat) : hole k i = i + shift k i := by
  unfold hole shift
  split <;> rfl

theorem hole_ne (k i : Nat) : hole k i ≠ k := by
  unfold hole
  split <;> omega

theorem hole_le {k i j : Nat} : hole k i ≤ hole k j ↔ i ≤ j := by
  unfold hole
  grind

/-- The stage in the pipeline with one more before stage `k`. -/
def Stage.past (k : Nat) (st : Stage) : Stage := st.further (shift k st.index)

@[simp] theorem Stage.index_past (k : Nat) (st : Stage) : (st.past k).index = hole k st.index :=
  (hole_eq k st.index).symm

theorem Pose.reads_past {k : Nat} {st : Stage} {pose : Pose} : pose.Reads (st.past k) ↔ pose.Reads st := by
  cases pose with
  | before program desk => cases program <;> rfl
  | offering answer next desk => rfl

namespace Crew

variable {S : Type} (crew : Crew S) (before after : List (Worker S)) (w : Worker S) (x : Turn S × Line)

@[simp] theorem pending_turned : (crew.turned before after w x).pending = crew.pending := by
  obtain ⟨turn, line⟩ := x
  cases turn <;> rfl

@[simp] theorem launched_turned : (crew.turned before after w x).launched = crew.launched := by
  obtain ⟨turn, line⟩ := x
  cases turn <;> rfl

@[simp] theorem refusal_turned : (crew.turned before after w x).refusal = crew.refusal := by
  obtain ⟨turn, line⟩ := x
  cases turn <;> rfl

@[simp] theorem line_turned : (crew.turned before after w x).line = x.2 := by
  obtain ⟨turn, line⟩ := x
  cases turn <;> rfl

end Crew

theorem Pose.getElem?_next {S : Type} {st : Stage} {pose : Pose} {line : Line} (hPlain : pose.IsPlain)
    (hProcess : st.isProcess = false) (hLast : st.isLast = true → st.source ≠ .host)
    (hInput : pose.Reads st → ∃ data, line.pipe (st.index - 1) = .ofBytes data) {j : Nat} (hOwn : st.index ≠ j)
    (hReads : pose.Reads st → st.index - 1 ≠ j) (signal : Signal) :
    (pose.next (S := S) st signal line).2.pipes[j]? = line.pipes[j]? := by
  cases hDone : pose.isDone with
  | true =>
    obtain ⟨result, desk, rfl⟩ := pose.eq_of_isDone hDone
    simp [next, Stage.closed, Stage.close, hOwn]
  | false =>
    have hKeeps : st.Keeps (pose.Reads st) fun l => l.pipes[j]? = line.pipes[j]? :=
      ⟨fun _ _ h _ => (List.getElem?_set_ne hOwn).trans h,
        fun hYes _ _ _ h _ => (List.getElem?_set_ne (hReads hYes)).trans h, fun _ _ _ _ h _ => h⟩
    obtain ⟨work, line', pose', hNext, -, -, hKept⟩ := next_keeps hPlain hProcess hLast hInput hKeeps rfl hDone signal
    rw [hNext]
    exact hKept

/-- A stage at work in a pipeline, and in the one with a `cat` as stage `k`. -/
inductive Worker.Twin {S : Type} (k : Nat) (w : Worker S) : Worker S → Prop
  | intro {work : Work S} {pose : Pose} (hHolds : w.work.Holds w.stage pose)
      (hHolds' : work.Holds (w.stage.past k) pose) (hPlain : pose.IsPlain) : Twin k w ⟨w.stage.past k, w.inOrder, work⟩

/-- The stages at work in both pipelines, but for the `cat`. -/
def Worker.Twins {S : Type} (k : Nat) (ws ws' : List (Worker S)) : Prop :=
  List.Forall₂ (Worker.Twin k) ws (ws'.filter (·.stage.index != k))

namespace Worker.Twins

variable {S : Type} {k : Nat} {ws ws' before back before' back' : List (Worker S)} {w w' : Worker S}

theorem append (h : Twins k before before') (hBack : Twins k back back') :
    Twins k (before ++ back) (before' ++ back') := by
  rw [Twins, List.filter_append]
  exact List.rel_append h hBack

theorem cons (h : Twin k w w') (hBack : Twins k back back') : Twins k (w :: back) (w' :: back') := by
  have hOther : w'.stage.index ≠ k := by
    cases h
    rw [Stage.index_past]
    exact hole_ne k _
  rw [Twins, List.filter_cons_of_pos (by simpa using hOther)]
  exact .cons h hBack

theorem skip (h : Twins k ws (before' ++ back')) (hIndex : w.stage.index = k) :
    Twins k ws (before' ++ w :: back') := by
  simpa [Twins, hIndex] using h

theorem of_skip (h : Twins k ws (before' ++ w :: back')) (hIndex : w.stage.index = k) :
    Twins k ws (before' ++ back') := by
  simpa [Twins, hIndex] using h

theorem split (h : Twins k (before ++ w :: back) ws') :
    ∃ before' w' back', ws' = before' ++ w' :: back' ∧ Twins k before before' ∧ Twin k w w' ∧ Twins k back back' := by
  obtain ⟨front, w', rest, hFilter, hFront, hTwin, hRest⟩ := forall₂_split h
  obtain ⟨before', rest', rfl, rfl, hRest'⟩ := List.filter_eq_append_iff.mp hFilter
  obtain ⟨between, back', rfl, hNone, -, rfl⟩ := List.filter_eq_cons_iff.mp hRest'
  have hBetween : between.filter (·.stage.index != k) = [] := by simpa using hNone
  refine ⟨before' ++ between, w', back', by simp, ?_, hTwin, hRest⟩
  simpa [Twins, hBetween] using hFront

theorem split_other (h : Twins k ws (before' ++ w' :: back')) (hOther : w'.stage.index ≠ k) :
    ∃ before w back, ws = before ++ w :: back ∧ Twins k before before' ∧ Twin k w w' ∧ Twins k back back' := by
  rw [Twins, List.filter_append, List.filter_cons_of_pos (by simpa using hOther)] at h
  obtain ⟨before, w, back, hSplit, hBefore, hTwin, hBack⟩ := forall₂_split h.flip
  exact ⟨before, w, back, hSplit, hBefore.flip, hTwin, hBack.flip⟩

theorem map {β : Type} {f g : Worker S → β} (h : Twins k ws ws') (hSame : ∀ w w', Twin k w w' → g w' = f w) :
    (ws'.filter (·.stage.index != k)).map g = ws.map f := by
  unfold Twins at h
  generalize ws'.filter (·.stage.index != k) = us at h ⊢
  induction h with
  | nil => rfl
  | cons hTwin _ ih => rw [List.map_cons, List.map_cons, hSame _ _ hTwin, ih]

end Worker.Twins

/-- The `cat` before it has read anything, and when it has written everything. -/
def Pose.copying : Pose := .before Task.relay ⟨.nothing, [], []⟩

def Pose.copied : Pose := .before (.done (.ok ())) ⟨.nothing, [], []⟩

theorem Pose.plain_copying : Pose.copying.IsPlain := ⟨Task.plain_relay, rfl⟩

theorem Pose.plain_copied : Pose.copied.IsPlain := ⟨trivial, rfl⟩

/-- A `cat` at work as stage `k`. -/
structure Worker.Copies {S : Type} (k : Nat) (pose : Pose) (w : Worker S) : Prop where
  index : w.stage.index = k
  isLast : w.stage.isLast = false
  source : w.stage.source = .pipe
  out : w.stage.out = .output
  inOrder : w.inOrder = false
  holds : w.work.Holds w.stage pose

namespace Crew

variable {S : Type}

def cats (k : Nat) (crew : Crew S) : List (Worker S) := crew.workers.filter (·.stage.index == k)

/-- The `cat` has not been launched. The commands `after` are those after it. -/
structure Ahead (k : Nat) (after : List Command) (crew crew' : Crew S) : Prop where
  launched : crew'.launched = crew.launched
  pending : ∃ before, crew.pending = before ++ after ∧ crew'.pending = before ++ .bareCat :: after ∧
    crew.launched + before.length = k

/-- The `cat` and all commands before it have been launched. -/
structure Beyond (k : Nat) (crew crew' : Crew S) : Prop where
  launched : crew'.launched = crew.launched + 1
  pending : crew'.pending = crew.pending
  reached : k ≤ crew.launched

/-- The `cat` is at work and has not read anything. -/
structure Unread (ts : Bytes × Bytes) (k : Nat) (crew crew' : Crew S) (w : Worker S) : Prop where
  beyond : Beyond k crew crew'
  line : crew.line.Beside ts (hole k) crew'.line
  own : crew'.line.pipes[k]? = some .awaiting
  cats : crew'.cats k = [w]
  copies : w.Copies k .copying

/-- The `cat` has copied the pipe before it into the one after it. -/
structure Taken (ts : Bytes × Bytes) (k : Nat) (crew crew' : Crew S) (w : Worker S) : Prop where
  beyond : Beyond k crew crew'
  line : crew.line.Alike ts (hole k) (· ≠ k - 1) crew'.line
  full : ∃ data, crew.line.pipes[k - 1]? = some (.ofBytes data) ∧
    crew'.line.pipes[k]? = some (Feed.awaiting.add data)
  cats : crew'.cats k = [w]
  copies : w.Copies k .copied

/-- How far the `cat` has come. -/
inductive Passing (ts : Bytes × Bytes) (k : Nat) (after : List Command) (crew crew' : Crew S) : Prop
  | ahead (hAhead : Ahead k after crew crew') (hLine : crew.line.Beside ts (hole k) crew'.line)
      (hOwn : crew'.line.pipes[k]? = some .awaiting) (hCats : crew'.cats k = [])
  | unread {w : Worker S} (hUnread : Unread ts k crew crew' w)
  | taken {w : Worker S} (hTaken : Taken ts k crew crew' w)
  | passed (hBeyond : Beyond k crew crew') (hLine : crew.line.Beside ts (hole (k - 1)) crew'.line)
      (hCats : crew'.cats k = [])

/-- The crew of a pipeline, and that of the same one with a `cat` as stage `k`. -/
structure Abreast (ts : Bytes × Bytes) (k : Nat) (after : List Command) (n : Nat)
    (site : (String → Option Builtin) × Bool) (crew crew' : Crew S) : Prop where
  flowing : crew.Flowing n site
  flowing' : crew'.Flowing (n + 1) site
  workers : Worker.Twins k crew.workers crew'.workers
  refusal : crew'.refusal = crew.refusal
  passing : Passing ts k after crew crew'

section Places

variable {k : Nat} {st : Stage} {reads : Prop}

theorem renumbers_hole {K : Nat → Prop} (hKept : K st.index) (hReads : reads → st.index ≠ k ∧ K (st.index - 1)) :
    st.Renumbers (hole k) K (shift k st.index) reads where
  own := hole_eq k st.index
  kept := hKept
  before hYes _ := by
    obtain ⟨hNe, hBefore⟩ := hReads hYes
    refine ⟨?_, hBefore⟩
    unfold hole shift
    grind

theorem shifts_past (hk : k ≠ 0) {i : Nat} (hPast : k ≤ i) : Shifts (hole (k - 1)) (shift k i) i := by
  rw [shift_of_le hPast]
  exact shifts_after (by omega)

end Places

section Passing

variable {ts : Bytes × Bytes} {k n : Nat} {after : List Command} {site : (String → Option Builtin) × Bool}
  {crew crew' last last' : Crew S} {before back before' back' : List (Worker S)} {w w' : Worker S} {pose : Pose}

theorem cats_turned (hWorkers : crew.workers = before ++ w :: back) (hOther : w.stage.index ≠ k)
    (x : Turn S × Line) : (crew.turned before back w x).cats k = crew.cats k := by
  obtain ⟨turn, line⟩ := x
  cases turn <;> simp [cats, turned, hWorkers, hOther]

theorem Ahead.turned (h : Ahead k after crew crew') {x x' : Turn S × Line} :
    Ahead k after (crew.turned before back w x) (crew'.turned before' back' w' x') where
  launched := by rw [launched_turned, launched_turned, h.launched]
  pending := by
    rw [pending_turned, pending_turned, launched_turned]
    exact h.pending

theorem Beyond.turned (h : Beyond k crew crew') {x x' : Turn S × Line} :
    Beyond k (crew.turned before back w x) (crew'.turned before' back' w' x') where
  launched := by rw [launched_turned, launched_turned, h.launched]
  pending := by rw [pending_turned, pending_turned, h.pending]
  reached := by rw [launched_turned]; exact h.reached

theorem Ahead.le (h : Ahead k after crew crew') : crew.launched ≤ k := by
  obtain ⟨before, -, -, hCount⟩ := h.pending
  omega

theorem mem_of_cats (h : crew.cats k = [w]) : w ∈ crew.workers ∧ w.stage.index = k := by
  have hMem : w ∈ crew.cats k := h ▸ List.mem_singleton_self w
  simpa [cats] using hMem

theorem not_left_of_cats (h : crew.cats k = [w]) : ¬crew.Left k := by
  obtain ⟨hw, rfl⟩ := mem_of_cats h
  exact Flowing.not_left hw

theorem not_mem_of_cats (h : crew.cats k = []) : k ∉ crew.indices := by
  intro hk
  obtain ⟨w, hw, hIndex⟩ := List.mem_map.mp hk
  have hMem : w ∈ crew.cats k := by simp [cats, hw, hIndex]
  rw [h] at hMem
  cases hMem

theorem Ahead.not_beyond (h : Ahead k after crew crew') (hBeyond : Beyond k crew crew') : False := by
  have hLaunched := h.launched
  rw [hBeyond.launched] at hLaunched
  omega

theorem Passing.ahead_or_beyond (h : Passing ts k after crew crew') :
    Ahead k after crew crew' ∨ Beyond k crew crew' := by
  cases h with
  | ahead hAhead hLine hOwn hCats => exact .inl hAhead
  | unread hUnread => exact .inr hUnread.beyond
  | taken hTaken => exact .inr hTaken.beyond
  | passed hBeyond hLine hCats => exact .inr hBeyond

theorem Passing.beyond (h : Passing ts k after crew crew') (hReached : k < crew.launched) : Beyond k crew crew' :=
  h.ahead_or_beyond.resolve_left fun hAhead => Nat.not_le.mpr hReached hAhead.le

theorem Passing.of_ahead (h : Passing ts k after crew crew') (hAhead : Ahead k after crew crew') :
    crew.line.Beside ts (hole k) crew'.line ∧ crew'.line.pipes[k]? = some .awaiting ∧ crew'.cats k = [] := by
  cases h with
  | ahead hOld hLine hOwn hCats => exact ⟨hLine, hOwn, hCats⟩
  | unread hUnread => exact (hAhead.not_beyond hUnread.beyond).elim
  | taken hTaken => exact (hAhead.not_beyond hTaken.beyond).elim
  | passed hBeyond hLine hCats => exact (hAhead.not_beyond hBeyond).elim

/-- One way or other the lines are the same by other numbers. -/
theorem Passing.alike (h : Passing ts k after crew crew') : ∃ e K, crew.line.Alike ts e K crew'.line := by
  cases h with
  | ahead hAhead hLine hOwn hCats => exact ⟨_, _, hLine⟩
  | unread hUnread => exact ⟨_, _, hUnread.line⟩
  | taken hTaken => exact ⟨_, _, hTaken.line⟩
  | passed hBeyond hLine hCats => exact ⟨_, _, hLine⟩

theorem Passing.alongside (h : Passing ts k after crew crew')
    (hAhead : Ahead k after crew crew' → Ahead k after last last')
    (hBeyond : Beyond k crew crew' → Beyond k last last')
    (hLine : ∀ {e : Nat → Nat} {K : Nat → Prop}, crew.line.Alike ts e K crew'.line → last.line.Alike ts e K last'.line)
    (hPipes : last.line.pipes = crew.line.pipes) (hPipes' : last'.line.pipes = crew'.line.pipes)
    (hCats : last'.cats k = crew'.cats k) : Passing ts k after last last' := by
  cases h with
  | ahead hOld hBeside hOwn hOldCats =>
    exact .ahead (hAhead hOld) (hLine hBeside) (hPipes' ▸ hOwn) (hCats.trans hOldCats)
  | unread hOld =>
    exact .unread ⟨hBeyond hOld.beyond, hLine hOld.line, hPipes' ▸ hOld.own, hCats.trans hOld.cats, hOld.copies⟩
  | taken hOld =>
    refine .taken ⟨hBeyond hOld.beyond, hLine hOld.line, ?_, hCats.trans hOld.cats, hOld.copies⟩
    rw [hPipes, hPipes']
    exact hOld.full
  | passed hOld hBeside hOldCats => exact .passed (hBeyond hOld) (hLine hBeside) (hCats.trans hOldCats)

/-- A stage at work can go on in both pipelines. As long as the `cat` has not left, the first stage after it may not
read, and no stage after it may leave. -/
structure Moving (k n : Nat) (site : (String → Option Builtin) × Bool) (crew crew' : Crew S)
    (before back before' back' : List (Worker S)) (w w' : Worker S) (pose : Pose) : Prop where
  flowing : crew.Flowing n site
  flowing' : crew'.Flowing (n + 1) site
  workers : crew.workers = before ++ w :: back
  workers' : crew'.workers = before' ++ w' :: back'
  stage : w'.stage = w.stage.past k
  plain : pose.IsPlain
  input : pose.Reads w.stage → ∃ data, crew.line.pipe (w.stage.index - 1) = .ofBytes data
  input' : pose.Reads w'.stage → ∃ data, crew'.line.pipe (w'.stage.index - 1) = .ofBytes data
  reading : pose.Reads w.stage → w.stage.index = k → crew'.Left k
  leaving : pose.isDone = true → k ≤ w.stage.index → crew'.Left k

namespace Moving

variable (h : Moving k n site crew crew' before back before' back' w w' pose)

include h

theorem index : w'.stage.index = hole k w.stage.index := by rw [h.stage, Stage.index_past]

theorem other : w'.stage.index ≠ k := h.index ▸ hole_ne k _

theorem first (hAtWork : ¬crew'.Left k) (hReads : pose.Reads w.stage) : w.stage.index ≠ k :=
  fun hHere => hAtWork (h.reading hReads hHere)

theorem found (hReads : pose.Reads w.stage) :
    ∃ data, crew'.line.pipe (w.stage.index + shift k w.stage.index - 1) = .ofBytes data := by
  rw [← hole_eq, ← h.index]
  refine h.input' ?_
  rw [h.stage]
  exact Pose.reads_past.mpr hReads

/-- The turn comes to the same in both pipelines wherever the pipes of the stage are the same. -/
theorem alike {e : Nat → Nat} (he : e.Injective) {K : Nat → Prop}
    (hPlace : w.stage.Renumbers e K (shift k w.stage.index) (pose.Reads w.stage))
    (hShifts : pose.isDone = true → Shifts e (shift k w.stage.index) w.stage.index)
    (hLine : crew.line.Alike ts e K crew'.line) (signal : Signal) :
    (pose.next (S := S) w'.stage signal crew'.line).1 = (pose.next w.stage signal crew.line).1 ∧
      (pose.next (S := S) w.stage signal crew.line).2.Alike ts e K
        (pose.next (S := S) w'.stage signal crew'.line).2 := by
  have hw := Flowing.mem h.workers
  rw [h.stage]
  exact Pose.next_alike (S := S) h.plain (h.flowing.workers w hw).builtin (h.flowing.not_host hw) h.input he hPlace
    hShifts h.found hLine signal

theorem shifts (hAtWork : ¬crew'.Left k) (hDone : pose.isDone = true) :
    Shifts (hole k) (shift k w.stage.index) w.stage.index := by
  have hBefore : w.stage.index < k := Nat.not_le.mp fun hPast => hAtWork (h.leaving hDone hPast)
  rw [shift_of_lt hBefore]
  exact shifts_before hBefore

theorem beside (hAtWork : ¬crew'.Left k) (hLine : crew.line.Beside ts (hole k) crew'.line) (signal : Signal) :
    (pose.next (S := S) w'.stage signal crew'.line).1 = (pose.next w.stage signal crew.line).1 ∧
      (pose.next (S := S) w.stage signal crew.line).2.Beside ts (hole k)
        (pose.next (S := S) w'.stage signal crew'.line).2 :=
  h.alike (hole_injective k) (renumbers_hole trivial fun hReads => ⟨h.first hAtWork hReads, trivial⟩) (h.shifts hAtWork)
    hLine signal

/-- The pipe of a `cat` at work is left alone. -/
theorem own (hAtWork : ¬crew'.Left k) (signal : Signal) :
    (crew'.turned before' back' w' (pose.next w'.stage signal crew'.line)).line.pipes[k]? = crew'.line.pipes[k]? := by
  have hw' := Flowing.mem h.workers'
  rw [line_turned]
  refine Pose.getElem?_next h.plain (h.flowing'.workers w' hw').builtin (h.flowing'.not_host hw') h.input' h.other ?_
    signal
  intro hReads
  rw [h.stage] at hReads
  have hNe := h.first hAtWork (Pose.reads_past.mp hReads)
  rw [h.index]
  unfold hole
  split <;> omega

theorem cats (signal : Signal) :
    (crew'.turned before' back' w' (pose.next w'.stage signal crew'.line)).cats k = crew'.cats k :=
  cats_turned h.workers' h.other _

/-- What the `cat` has copied stays where it was and where it is. -/
theorem taken (hk : k ≠ 0) {c : Worker S} (hTaken : Taken ts k crew crew' c) (signal : Signal) :
    (pose.next (S := S) w'.stage signal crew'.line).1 = (pose.next w.stage signal crew.line).1 ∧
      Taken ts k (crew.turned before back w (pose.next w.stage signal crew.line))
        (crew'.turned before' back' w' (pose.next w'.stage signal crew'.line)) c := by
  have hAtWork := not_left_of_cats hTaken.cats
  have hw := Flowing.mem h.workers
  obtain ⟨data, hBefore, hOwn⟩ := hTaken.full
  have hLeft : crew.Left (k - 1) := by
    have hShort : k - 1 < n := by
      rw [← h.flowing.line.length]
      exact (List.getElem?_eq_some_iff.mp hBefore).1
    refine h.flowing.line.left_of_ended hShort ?_
    rw [Line.pipe, List.getD_eq_getElem?_getD, hBefore]
    rfl
  have hPast : k - 1 < w.stage.index := h.flowing.inTurn _ hLeft _ (Flowing.index_mem hw)
  have hOther (hReads : pose.Reads w.stage) : w.stage.index - 1 ≠ k - 1 := by
    have hNe := h.first hAtWork hReads
    omega
  have hPlace : w.stage.Renumbers (hole k) (· ≠ k - 1) (shift k w.stage.index) (pose.Reads w.stage) :=
    renumbers_hole (Nat.ne_of_gt hPast) fun hReads => ⟨h.first hAtWork hReads, hOther hReads⟩
  obtain ⟨hTurn, hLine⟩ := h.alike (hole_injective k) hPlace (h.shifts hAtWork) hTaken.line signal
  refine ⟨hTurn, hTaken.beyond.turned, ?_, ⟨data, ?_, ?_⟩, (h.cats signal).trans hTaken.cats, hTaken.copies⟩
  · rwa [line_turned, line_turned]
  · rw [line_turned, ← hBefore]
    exact Pose.getElem?_next h.plain (h.flowing.workers w hw).builtin (h.flowing.not_host hw) h.input
      (Nat.ne_of_gt hPast) hOther signal
  · exact (h.own hAtWork signal).trans hOwn

/-- Once the `cat` has left, only stages after it are at work. -/
theorem passed (hk : k ≠ 0) (hBeyond : Beyond k crew crew') (hLine : crew.line.Beside ts (hole (k - 1)) crew'.line)
    (hNone : crew'.cats k = []) (signal : Signal) :
    (pose.next (S := S) w'.stage signal crew'.line).1 = (pose.next w.stage signal crew.line).1 ∧
      (pose.next (S := S) w.stage signal crew.line).2.Beside ts (hole (k - 1))
        (pose.next (S := S) w'.stage signal crew'.line).2 := by
  have hLeft : crew'.Left k := by
    refine ⟨?_, not_mem_of_cats hNone⟩
    have hReached := hBeyond.reached
    rw [hBeyond.launched]
    omega
  have hPast : k ≤ w.stage.index := by
    have hLater := h.flowing'.inTurn k hLeft _ (Flowing.index_mem (Flowing.mem h.workers'))
    rw [h.index] at hLater
    unfold hole at hLater
    split at hLater <;> omega
  have hShifts := shifts_past hk hPast
  exact h.alike (hole_injective _) (Stage.renumbers_of_shifts hShifts) (fun _ => hShifts) hLine signal

end Moving

/-- The same turn of a stage in both pipelines comes to the same. -/
theorem Passing.move (h : Passing ts k after crew crew') (hk : k ≠ 0)
    (hMoving : Moving k n site crew crew' before back before' back' w w' pose) (signal : Signal) :
    (pose.next (S := S) w'.stage signal crew'.line).1 = (pose.next w.stage signal crew.line).1 ∧
      Passing ts k after (crew.turned before back w (pose.next w.stage signal crew.line))
        (crew'.turned before' back' w' (pose.next w'.stage signal crew'.line)) := by
  have hCats := hMoving.cats signal
  cases h with
  | ahead hAhead hLine hOwn hNone =>
    have hAtWork : ¬crew'.Left k := fun hLeft => by
      have hLaunched := hLeft.1
      have hLe := hAhead.le
      rw [hAhead.launched] at hLaunched
      omega
    obtain ⟨hTurn, hLine⟩ := hMoving.beside hAtWork hLine signal
    refine ⟨hTurn, .ahead hAhead.turned ?_ ((hMoving.own hAtWork signal).trans hOwn) (hCats.trans hNone)⟩
    rwa [line_turned, line_turned]
  | unread hUnread =>
    have hAtWork := not_left_of_cats hUnread.cats
    obtain ⟨hTurn, hLine⟩ := hMoving.beside hAtWork hUnread.line signal
    refine ⟨hTurn, .unread ⟨hUnread.beyond.turned, ?_, (hMoving.own hAtWork signal).trans hUnread.own,
      hCats.trans hUnread.cats, hUnread.copies⟩⟩
    rwa [line_turned, line_turned]
  | taken hTaken => exact (hMoving.taken hk hTaken signal).imp_right .taken
  | passed hBeyond hLine hNone =>
    obtain ⟨hTurn, hLine⟩ := hMoving.passed hk hBeyond hLine hNone signal
    refine ⟨hTurn, .passed hBeyond.turned ?_ (hCats.trans hNone)⟩
    rwa [line_turned, line_turned]

end Passing

end Crew

end Pipework
