import Pipework.Proofs.Background.Delivery

/-!
# Scripts that nobody disturbs

What a script writes can depend on what others do to the world, and on when it is stopped. As long as nobody does
either, the reads of a reader give what one single read of as many bytes would have given: into how many reads
that is cut, and when they are made, does not matter.
-/

namespace Pipework

theorem take_replicate_flatten {data : Bytes} {m n : Nat} (h : m ≤ n) :
    (List.replicate n data).flatten.take m = (List.replicate m data).flatten.take m := by
  obtain ⟨k, rfl⟩ := Nat.exists_eq_add_of_le h
  rw [List.replicate_add, List.flatten_append]
  cases data with
  | nil => simp
  | cons b data =>
    apply List.take_append_of_le_length
    have hLength : m * 1 ≤ m * (b :: data).length := Nat.mul_le_mul_left m (by simp)
    simpa using hLength

theorem cyclic_eq {data : Bytes} {taken : Nat} (h : taken ≤ data.length) (n : Nat) :
    cyclic data taken n = (data.drop taken).take n ++ cyclic data 0 (n - (data.length - taken)) := by
  unfold cyclic
  rw [List.replicate_succ, List.flatten_cons, List.drop_append_of_le_length h, List.take_append, List.length_drop,
    List.drop_zero]
  congr 1
  rw [take_replicate_flatten (by omega), take_replicate_flatten (n := 0 + (n - (data.length - taken)) + 1) (by omega)]

theorem pull_zero (r : Background) (taken : Nat) (w : World) : (pull r (some 0) taken w).data = [] := by
  induction r generalizing taken w with
  | done result state => rfl
  | wait why state resume ih =>
    cases why with
    | never => rfl
    | offer data endless =>
      cases endless with
      | true => simp [pull, cyclic]
      | false =>
        unfold pull
        dsimp only
        split
        · simp
        · next hNone =>
          have hLeft : (data.drop taken).length = 0 := by omega
          rw [if_pos hLeft.symm, List.length_eq_zero_iff.mp hLeft]
          rfl
    | stop => exact ih .ready w 0 _
    | input i => exact ih .ready w 0 _
    | room i => exact ih .ready w 0 _

theorem pull_offer (data : Bytes) (state : World) (resume : Signal → World → Background) (n taken : Nat) (w : World) :
    (pull (.wait (.offer data false) state resume) (some n) taken w).data =
      (data.drop taken).take n ++
        (pull (resume .ready w) (some (n - (data.length - taken))) 0 (resume .ready w).state).data := by
  rw [← List.length_drop, pull]
  dsimp only
  split
  · next hLess =>
    rw [Nat.sub_eq_zero_of_le (Nat.le_of_lt hLess), pull_zero, List.append_nil]
  · next hLess =>
    rw [List.take_of_length_le (Nat.le_of_not_lt hLess)]
    split
    · next hSame =>
      rw [← hSame, Nat.sub_self, pull_zero]
    · rfl

namespace Progress

/-- The next `n` bytes that the script will write, as far as they come, if nobody disturbs it. -/
def ahead : Progress → World → (n : Nat) → Bytes
  | .idle next, w, n | .due next, w, n => (pull (next w) (some n) 0 (next w).state).data
  | .waiting why resume taken, w, n => (pull (.wait why w resume) (some n) taken w).data
  | .ended _, _, _ | .noted _, _, _ | .sealed _, _, _ | .done _, _, _ => []

/-- What the script will write in all, its result and the world that it leaves, if it comes to an end by itself. -/
def drain : Progress → World → Option (Bytes × Except Fault String × World)
  | .idle next, w | .due next, w => (next w).drain
  | .waiting (.offer data false) resume taken, w =>
    (resume .ready w).drain.map fun (more, x) => (data.drop taken ++ more, x)
  | .waiting why resume _, w => (Run.wait why w resume).drain
  | .ended result, w | .noted result, w | .sealed result, w | .done result, w => some ([], result, w)

theorem ahead_zero (p : Progress) (w : World) : p.ahead w 0 = [] := by
  cases p with
  | idle next | due next | waiting why resume taken => exact pull_zero _ _ _
  | _ => rfl

@[simp] theorem ahead_begin (p : Progress) : p.begin.ahead = p.ahead := by cases p <;> rfl

@[simp] theorem drain_begin (p : Progress) : p.begin.drain = p.drain := by cases p <;> rfl

/-- After what is left of an offer comes what does not depend on how much has been taken of it. -/
theorem ahead_offer (data : Bytes) (endless : Bool) (resume : Signal → World → Background) (w : World) :
    ∃ later : Nat → Bytes, ∀ taken, taken ≤ data.length → ∀ n,
      (waiting (.offer data endless) resume taken).ahead w n =
          (data.drop taken).take n ++ later (n - (data.length - taken)) ∧
        (offering data endless resume taken).ahead w n =
          (data.drop taken).take n ++ later (n - (data.length - taken)) := by
  have hOffering (later : Nat → Bytes) {taken n : Nat} (hTaken : taken ≤ data.length)
      (hWaiting : (waiting (.offer data endless) resume taken).ahead w n =
        (data.drop taken).take n ++ later (n - (data.length - taken)))
      (hDue : (due (afterOffer data endless resume)).ahead w n = later n) :
      (offering data endless resume taken).ahead w n =
        (data.drop taken).take n ++ later (n - (data.length - taken)) := by
    unfold offering
    split
    · exact hWaiting
    · next hAll =>
      obtain rfl : taken = data.length := by omega
      simpa using hDue
  cases endless with
  | true =>
    refine ⟨cyclic data 0, fun taken hTaken n => ?_⟩
    have hWaiting : (waiting (.offer data true) resume taken).ahead w n =
        (data.drop taken).take n ++ cyclic data 0 (n - (data.length - taken)) := cyclic_eq hTaken n
    exact ⟨hWaiting, hOffering _ hTaken hWaiting rfl⟩
  | false =>
    let later n := (pull (resume .ready w) (some n) 0 (resume .ready w).state).data
    refine ⟨later, fun taken hTaken n => ?_⟩
    have hWaiting : (waiting (.offer data false) resume taken).ahead w n =
        (data.drop taken).take n ++ later (n - (data.length - taken)) := pull_offer data w resume n taken w
    exact ⟨hWaiting, hOffering later hTaken hWaiting rfl⟩

theorem ahead_take {data : Bytes} {endless : Bool} {resume : Signal → World → Background} {w : World} {taken k : Nat}
    (h : taken + k ≤ data.length) (n : Nat) :
    (waiting (.offer data endless) resume taken).ahead w (k + n) =
      (data.drop taken).take k ++ (offering data endless resume (taken + k)).ahead w n := by
  obtain ⟨later, hLater⟩ := ahead_offer data endless resume w
  rw [(hLater taken (by omega) (k + n)).1, (hLater (taken + k) h n).2, List.take_add, List.drop_drop,
    List.append_assoc]
  congr 3
  omega

theorem drain_take {data : Bytes} {endless : Bool} {resume : Signal → World → Background} {w : World} {taken k : Nat} :
    (waiting (.offer data endless) resume taken).drain w =
      ((offering data endless resume (taken + k)).drain w).map fun (more, x) =>
        ((data.drop taken).take k ++ more, x) := by
  cases endless with
  | true =>
    unfold offering
    split <;> rfl
  | false =>
    have hOffering : (offering data false resume (taken + k)).drain w =
        (resume .ready w).drain.map fun (more, x) => (data.drop (taken + k) ++ more, x) := by
      unfold offering
      split
      · rfl
      · next hAll =>
        simp [List.drop_eq_nil_of_le (Nat.le_of_not_lt hAll), drain, afterOffer]
    rw [hOffering, Option.map_map, drain]
    simp [Function.comp_def, ← List.drop_drop, ← List.append_assoc]

theorem Moves.ahead {x y : Progress × World} {written : Bytes} (h : Moves false false x written y) :
    y.1.ahead y.2 = x.1.ahead x.2 ∧ y.1.drain y.2 = x.1.drain x.2 := by
  cases h with
  | @go next w =>
    constructor
    · funext n
      dsimp only [Progress.ahead]
      cases next w <;> rfl
    · dsimp only [drain]
      cases next w with
      | done result state => rfl
      | wait why state resume =>
        cases why with
        | offer data endless => cases endless <;> rfl
        | _ => rfl
  | @ready why resume taken w hOffer hNever =>
    constructor
    · funext n
      dsimp only [Progress.ahead]
      rw [pull_wait hOffer hNever]
    · cases why with
      | never => exact absurd rfl hNever
      | offer data endless => cases hOffer
      | _ => rfl
  | stop hStop => simp at hStop

end Progress

namespace Reader

variable {start : World → Background} {w : World} {events : List Event} {s u v : Use}

/-- Whether the event stops the script or changes the world that it works on. -/
def Event.disturbs : Event → Bool
  | .cancels _ | .outside => true
  | _ => false

/-- What reads have given and what is ahead is what the script writes when it is started in `w`. -/
structure Undisturbed (start : World → Background) (w : World) (events : List Event) (u : Use) : Prop where
  canceled : u.canceled = false
  gone : u.gone = false
  ahead : ∀ n, (pull (start w) (some ((given events).length + n)) 0 (start w).state).data =
    given events ++ u.progress.ahead u.world n
  drain : (start w).drain = (u.progress.drain u.world).map fun (more, x) => (given events ++ more, x)

theorem Undisturbed.keep {e : Event} (h : Undisturbed start w events u) (hGiven : e.given = [])
    (hCanceled : v.canceled = u.canceled) (hGone : v.gone = u.gone)
    (hAhead : v.progress.ahead v.world = u.progress.ahead u.world)
    (hDrain : v.progress.drain v.world = u.progress.drain u.world) : Undisturbed start w (events ++ [e]) v where
  canceled := hCanceled.trans h.canceled
  gone := hGone.trans h.gone
  ahead := by simpa [hGiven, hAhead] using h.ahead
  drain := by simpa [hGiven, hDrain] using h.drain

theorem Undisturbed.step {e : Event} (h : Undisturbed start w events u) (hStep : Step events u e v)
    (hCalm : ∀ e' ∈ events ++ [e], e'.disturbs = false) : Undisturbed start w (events ++ [e]) v := by
  cases hStep with
  | enter hCall =>
    unfold Use.entered
    split
    · exact h.keep rfl rfl rfl rfl rfl
    · exact h.keep rfl rfl rfl (by simp) (by simp)
  | @take id _ n taken _ data endless resume hCall hEntry hOffer hGone hWant hLeft hSome =>
    have hLength : ((data.drop taken).take n).length = n := by
      rw [List.length_take, List.length_drop]
      omega
    refine ⟨h.canceled, hGone, fun m => ?_, ?_⟩
    · have hAhead := h.ahead (n + m)
      rw [hOffer, Progress.ahead_take hLeft, ← Nat.add_assoc, ← List.append_assoc] at hAhead
      simpa [Event.given, hLength] using hAhead
    · have hDrain := h.drain
      rw [hOffer, Progress.drain_take (k := n), Option.map_map] at hDrain
      simpa [Function.comp_def, Event.given] using hDrain
  | run hMoves =>
    rw [h.canceled, h.gone] at hMoves
    obtain ⟨hAhead, hDrain⟩ := hMoves.ahead
    exact h.keep rfl rfl rfl hAhead hDrain
  | finish hProgress | conclude hProgress | leave hProgress =>
    exact h.keep rfl rfl rfl (by rw [hProgress]; rfl) (by rw [hProgress]; rfl)
  | cancel hCall =>
    have hDisturbs := hCalm _ (List.mem_append_right _ List.mem_cons_self)
    cases hDisturbs
  | @disconnect id finished hCall =>
    have hCancels : .cancels id ∈ events := mem_of_doneBy hCall (by simp)
    have hDisturbs := hCalm _ (List.mem_append_left _ hCancels)
    cases hDisturbs
  | outside w' =>
    have hDisturbs := hCalm _ (List.mem_append_right _ List.mem_cons_self)
    cases hDisturbs
  | _ => exact h.keep rfl rfl rfl rfl rfl

theorem undisturbed (hNew : s.IsNew start w) (h : History Step s events u)
    (hCalm : ∀ e ∈ events, e.disturbs = false) : Undisturbed start w events u := by
  induction h with
  | nil =>
    rcases hNew with rfl | rfl <;>
      exact ⟨rfl, rfl, by simp [given, Use.fresh, Use.begun, Progress.ahead],
        by simp [given, Use.fresh, Use.begun, Progress.drain]⟩
  | snoc h hStep ih => exact (ih fun e he => hCalm e (List.mem_append_left _ he)).step hStep hCalm

/-- What reads give together depends on nothing but how much that is. -/
theorem given_eq_read (hNew : s.IsNew start w) (h : History Step s events u)
    (hCalm : ∀ e ∈ events, e.disturbs = false) :
    given events = ((Reader.idle start).read (some (given events).length) w).1.1 := by
  have hAhead := (undisturbed hNew h hCalm).ahead 0
  rw [Progress.ahead_zero, Nat.add_zero, List.append_nil] at hAhead
  by_cases hNone : given events = []
  · rw [hNone]
    rfl
  · have hWant : some (given events).length ≠ some 0 := by simpa using hNone
    rw [read_idle hWant, read_active hWant]
    exact hAhead.symm

theorem drain_of_finishes (hNew : s.IsNew start w) (h : History Step s events u)
    (hCalm : ∀ e ∈ events, e.disturbs = false) {result : Except Fault String} (hFinishes : .finishes result ∈ events) :
    (start w).drain = some (given events, result, u.world) := by
  have hResult := ((known hNew h).result result).mp hFinishes
  rw [(undisturbed hNew h hCalm).drain]
  cases hProgress : u.progress with
  | noted result' | sealed result' | done result' =>
    rw [hProgress] at hResult
    cases hResult
    simp [Progress.drain]
  | _ =>
    rw [hProgress] at hResult
    cases hResult

end Reader

end Pipework
