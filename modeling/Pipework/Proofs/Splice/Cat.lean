import Pipework.Builtin.Text
import Pipework.Proofs.Splice.Launches
import Pipework.Proofs.Stage.Lone

/-!
# A `cat` between two stages

A `cat` that stands between two stages of a pipeline passes on what the one before it has written. The stage after it
finds in its pipe what it would have found without the `cat`, and all other pipes are as they were.
-/

namespace Pipework

def Command.bareCat : Command := ⟨["cat"], [], []⟩

/-- The numbers of pipes after one has been put in under the number `h`. -/
def hole (h i : Nat) : Nat := if i < h then i else i + 1

theorem hole_of_lt {h i : Nat} (hi : i < h) : hole h i = i := if_pos hi

theorem hole_of_le {h i : Nat} (hi : h ≤ i) : hole h i = i + 1 := if_neg (Nat.not_lt.mpr hi)

theorem hole_injective (h : Nat) : (hole h).Injective := by
  intro i j hij
  unfold hole at hij
  grind

theorem shifts_before {h i : Nat} (hi : i < h) : Shifts (hole h) 0 i where
  own := hole_of_lt hi
  before := hole_of_lt (by omega)
  first := Iff.rfl

theorem shifts_after {h i : Nat} (hi : h < i) : Shifts (hole h) 1 i where
  own := hole_of_le (Nat.le_of_lt hi)
  before := by rw [hole_of_le (by omega)]; omega
  first := by omega

namespace Stage

theorem pour_between {st : Stage} {line : Line} (data : Bytes) (desk : Desk) (hInner : st.IsInner)
    (hOut : st.out = .output) (hOwn : line.pipes[st.index]? = some .awaiting)
    (hRoom : line.broken.contains st.index = false) :
    st.pour data desk line = .done (desk, some (.full data)) (line.setPipe st.index (Feed.awaiting.add data)) := by
  unfold pour
  split
  · next hEmpty =>
    -- Nothing is written, and the pipe stays as it is.
    have hSame : line.setPipe st.index .awaiting = line := by
      obtain ⟨hLength, hGet⟩ := List.getElem?_eq_some_iff.mp hOwn
      rw [← hGet, Line.setPipe, List.set_getElem_self]
    rw [hEmpty, show Feed.awaiting.add [] = .awaiting from rfl, hSame]
  · have hAwaiting : line.pipe st.index = .awaiting := by
      rw [Line.pipe, List.getD_eq_getElem?_getD, hOwn, Option.getD_some]
    simp only [deliver, hOut, hInner.inner, hRoom, hAwaiting, Bool.not_false, if_true, Bool.and_false,
      Bool.false_eq_true, if_false]

theorem perform_relay_between {st : Stage} {line : Line} (desk : Desk) (nested : Nested) (hInner : st.IsInner)
    (hSource : st.source = .pipe) (hOut : st.out = .output) {data : Bytes}
    (hBefore : line.pipes[st.index - 1]? = some (.ofBytes data)) (hOwn : line.pipes[st.index]? = some .awaiting)
    (hRoom : line.broken.contains st.index = false) :
    st.perform nested desk line (.relay Filter.all) = .done (desk, some (data, none))
      ((line.setPipe (st.index - 1) (.ofBytes [])).setPipe st.index (Feed.awaiting.add data)) := by
  have hIndex : st.index - 1 ≠ st.index := by
    have := hInner.source hSource
    omega
  have hPipe : line.pipe (st.index - 1) = .ofBytes data := by
    rw [Line.pipe, List.getD_eq_getElem?_getD, hBefore, Option.getD_some]
  have hScan : st.scan desk line = .done (desk, some (data, none)) (line.setPipe (st.index - 1) (.ofBytes [])) := by
    simp [scan, read, hSource, hPipe]
  have hFound : (line.setPipe (st.index - 1) (.ofBytes [])).pipes[st.index]? = some .awaiting := by
    rw [← hOwn]
    exact List.getElem?_set_ne hIndex
  have hFinite : (st.inputFeed desk line).cycle = [] := by simp [inputFeed, hSource, hPipe, Feed.ofBytes]
  have hNotHost : st.source ≠ .host := by simp [hSource]
  have hPour := pour_between data desk hInner hOut hFound hRoom
  change st.relay Filter.all desk line = _
  simp [relay, hFinite, hScan, hPour, hNotHost, Delivery.full]

theorem relay_eq_act : Task.relay = Program.act (.relay Filter.all) fun answer => Task.check answer.2 := rfl

theorem run_relay_between {st : Stage} {line : Line} (desk : Desk) (nested : Nested) (hInner : st.IsInner)
    (hSource : st.source = .pipe) (hOut : st.out = .output) {data : Bytes}
    (hBefore : line.pipes[st.index - 1]? = some (.ofBytes data)) (hOwn : line.pipes[st.index]? = some .awaiting)
    (hRoom : line.broken.contains st.index = false) :
    st.run nested Task.relay desk line =
      .done () (st.close none desk
        ((line.setPipe (st.index - 1) (.ofBytes [])).setPipe st.index (Feed.awaiting.add data))) := by
  rw [relay_eq_act, run_answered (perform_relay_between desk nested hInner hSource hOut hBefore hOwn hRoom)]
  rfl

end Stage

/-- After pipe `k - 1` has been copied into pipe `k`, the others are what they were, and pipe `k` is what pipe `k - 1`
has been. -/
theorem getElem?_copied {pipes pipes' : List Feed} {k : Nat} (hk : k ≠ 0) {data : Bytes}
    (hBefore : pipes[k - 1]? = some (.ofBytes data)) (hOwn : pipes'[k]? = some (Feed.awaiting.add data))
    (hOthers : ∀ i, i ≠ k - 1 → pipes'[hole k i]? = pipes[i]?) (i : Nat) :
    (pipes'.modify k Feed.finish)[hole (k - 1) i]? = pipes[i]? := by
  simp only [List.getElem?_modify]
  rcases Nat.lt_trichotomy i (k - 1) with hi | rfl | hi
  · have hSame := hOthers i (by omega)
    rw [hole_of_lt (by omega)] at hSame
    simp [hole_of_lt hi, hSame, show k ≠ i by omega]
  · have hNext : k - 1 + 1 = k := by omega
    rw [hole_of_le (Nat.le_refl _), hBefore, hNext]
    simp [hOwn, Feed.add, Feed.finish, Feed.awaiting, Feed.ofBytes]
  · have hSame := hOthers i (by omega)
    rw [hole_of_le (by omega)] at hSame
    simp [hole_of_le (Nat.le_of_lt hi), hSame, show k ≠ i + 1 by omega]

theorem contains_copied {broken : List Nat} {k : Nat} (hk : k ≠ 0)
    (hBroken : ∀ i, k ≤ i + 1 → broken.contains i = false) (i : Nat) :
    ((k - 1) :: broken).contains (hole (k - 1) i) = broken.contains (hole k i) := by
  rw [List.contains_cons]
  rcases Nat.lt_trichotomy i (k - 1) with hi | rfl | hi
  · rw [hole_of_lt hi, hole_of_lt (by omega), beq_false_of_ne (by omega), Bool.false_or]
  · rw [hole_of_le (Nat.le_refl _), hole_of_lt (by omega), hBroken _ (by omega), hBroken _ (by omega),
      beq_false_of_ne (by omega), Bool.false_or]
  · rw [hole_of_le (by omega), hole_of_le (by omega), beq_false_of_ne (by omega), Bool.false_or]

namespace Line

variable {ts : Bytes × Bytes} {k : Nat} {line line' : Line}

/-- A `cat` has copied pipe `k - 1`, which is the same in both pipelines no longer. -/
theorem Beside.relayed (h : line.Beside ts (hole k) line') (rest f : Feed) :
    line.Alike ts (hole k) (· ≠ k - 1) ((line'.setPipe (k - 1) rest).setPipe k f) := by
  cases h with
  | intro hWorld hPipes hBroken =>
    refine .intro hWorld (fun i hi => ?_) hBroken
    have hNe : k - 1 ≠ hole k i ∧ k ≠ hole k i := by
      unfold hole
      split <;> omega
    exact (List.getElem?_set_ne hNe.2).trans ((List.getElem?_set_ne hNe.1).trans (hPipes i trivial))

theorem Alike.past_relay (h : line.Alike ts (hole k) (· ≠ k - 1) line') {st : Stage} (desk : Desk) (hk : k ≠ 0)
    (hIndex : st.index = k) (hLast : st.isLast = false) (hHandles : desk.handles = []) {data : Bytes}
    (hBefore : line.pipes[k - 1]? = some (.ofBytes data)) (hOwn : line'.pipes[k]? = some (Feed.awaiting.add data))
    (hBroken : ∀ i ∈ line'.broken, i + 1 < k) (hCancels : line'.board.cancels = true → line'.canceled = true) :
    line.Beside ts (hole (k - 1)) (st.close none desk line') := by
  have hUnbroken (i : Nat) (hi : k ≤ i + 1) : line'.broken.contains i = false := by
    rw [← Bool.not_eq_true, List.contains_iff_mem]
    intro hMem
    exact absurd (hBroken i hMem) (by omega)
  have hBoard : line'.board.complete st.isLast none = line'.board := by simp [Board.complete, hLast]
  have hCanceled : (line'.canceled || line'.board.cancels) = line'.canceled := by
    cases hOver : line'.board.cancels with
    | false => exact Bool.or_false _
    | true => simp [hCancels hOver]
  have hClose : st.close none desk line' =
      { line' with pipes := line'.pipes.modify k Feed.finish, broken := (k - 1) :: line'.broken } := by
    unfold Stage.close
    rw [World.releaseAll_eq, hHandles, hIndex, if_neg hk]
    dsimp only [Option.map_none]
    rw [hBoard, hCanceled]
    rfl
  rw [hClose]
  cases h with
  | intro hWorld hPipes hOthers =>
    refine .intro hWorld (fun i _ => getElem?_copied hk hBefore hOwn hPipes i) fun i => ?_
    exact (contains_copied hk hUnbroken i).trans (hOthers i)

end Line

namespace Invoker

variable {v : Invoker} {nested : Nested} {output : Output}

def catLaunch (v : Invoker) (output : Output) (index : Nat) (line : Line) : Launch :=
  v.builtinLaunch output index false .bareCat line (.concurrent Builtin.cat)

theorem catLaunch_beside {ts : Bytes × Bytes} {k n : Nat} {line line' : Line} (h : line.Beside ts (hole k) line')
    (hReaches : line'.flow.Reaches n k) (hk : k ≠ 0) (hn : k < n) (first : Line) :
    ((v.catLaunch output k first).run nested line').isDone = true ∧
      line.Beside ts (hole (k - 1)) ((v.catLaunch output k first).leave nested line') := by
  have hSource : (v.catLaunch output k first).stage.source = .pipe := if_neg hk
  have hInner : (v.catLaunch output k first).stage.IsInner := ⟨rfl, fun _ => hk⟩
  obtain ⟨data, hBefore⟩ := hReaches.before hk
  have hOwn : line'.pipes[k]? = some .awaiting := hReaches.after k (Nat.le_refl k) hn
  have hRoom : line'.broken.contains k = false := by
    rw [← Bool.not_eq_true, List.contains_iff_mem]
    intro hMem
    exact absurd (hReaches.broken k hMem) (by omega)
  have hRun := Stage.run_relay_between (v.catLaunch output k first).desk nested hInner hSource rfl hBefore hOwn hRoom
  have hSame : (v.catLaunch output k first).run nested line' = _ := hRun
  have hFirst : line.pipes[k - 1]? = some (.ofBytes data) := by
    rw [← h.pipes trivial, hole_of_lt (by omega)]
    exact hBefore
  have hCopied : ((line'.setPipe (k - 1) (.ofBytes [])).setPipe k (Feed.awaiting.add data)).pipes[k]? =
      some (Feed.awaiting.add data) := by
    refine List.getElem?_set_self ?_
    rw [Line.setPipe, List.length_set]
    exact (List.getElem?_eq_some_iff.mp hOwn).1
  unfold Launch.leave
  rw [hSame]
  exact ⟨rfl, (h.relayed _ _).past_relay _ hk rfl rfl rfl hFirst hCopied hReaches.broken hReaches.cancels⟩

theorem map_further_zero (starts : List Launch) : starts.map (Launch.further 0) = starts := List.map_id starts

variable (v output) in
/-- Stages before and after a `cat` end in their turn, and leave what they leave without it. -/
theorem endInTurn_spliced (hNested : nested.Untraced) {front back : List Launch} {k : Nat} (hLength : front.length = k)
    (hFront : InnerRow 0 front) (hBack : InnerRow k back) (hk : k ≠ 0) {n : Nat} (hn : k < n) {line line' : Line}
    (h : line.Beside ts (hole k) line') (hReaches : line'.flow.Reaches n 0)
    (hEnds : EndInTurn nested (front ++ back) line) (first : Line) :
    let spliced := front ++ v.catLaunch output k first :: back.map (Launch.further 1)
    EndInTurn nested spliced line' ∧
      ((front ++ back).foldl (Launch.leave nested) line).Beside ts (hole (k - 1))
        (spliced.foldl (Launch.leave nested) line') := by
  subst hLength
  intro spliced
  obtain ⟨hBefore, hAfter⟩ := EndInTurn.append.mp hEnds
  have hShifts : ∀ l ∈ front, Shifts (hole front.length) 0 l.stage.index := by
    intro l hl
    have hBounds := hFront.bounds l hl
    exact shifts_before (by omega)
  obtain ⟨hBefore', hMiddle⟩ := hBefore.beside (hole_injective _) hNested hShifts h
  rw [map_further_zero] at hBefore' hMiddle
  have hReached := hFront.reaches hBefore' hReaches (by omega)
  rw [Nat.zero_add] at hReached
  -- So far the pipe after the `cat` was the additional one. Now that this one holds everything, it is the pipe before.
  obtain ⟨hCat, hPast⟩ := catLaunch_beside hMiddle hReached hk hn first
  have hShifts' : ∀ l ∈ back, Shifts (hole (front.length - 1)) 1 l.stage.index := by
    intro l hl
    have hBounds := hBack.bounds l hl
    exact shifts_after (by omega)
  obtain ⟨hAfter', hLast⟩ := hAfter.beside (hole_injective _) hNested hShifts' hPast
  rw [List.foldl_append, List.foldl_append]
  exact ⟨EndInTurn.append.mpr ⟨hBefore', hCat, hAfter'⟩, hLast⟩

end Invoker

end Pipework
