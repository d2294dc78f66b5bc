import Pipework.Proofs.Modes.Attempts
import Pipework.Proofs.Schedule.Basic
import Pipework.Reader

/-!
# The modes agree

A script that is read to its end, however the reads cut up its output, comes to the same as one that captures its
output and as one whose output goes to the host: the same attempts, the same fault, and the same world but for
what the host has received. Of the output, a reader gets that of the last statement, one that captures only that of the
attempt that succeeded, and the host all of it.
-/

namespace Pipework

/-- How a reader comes to its end when the script has a fault or none. -/
def ReadEnd.ofFault : Option Fault → ReadEnd
  | none => .eof
  | some cause => .fault cause

/-- Reads one after the other give `data`, and the last one ends with `ending`. -/
inductive Reader.Reads : Reader → World → (data : Bytes) → (ending : ReadEnd) → World → Prop
  | last {r r' : Reader} {want : Option Nat} {w w' : World} {data : Bytes} {ending : ReadEnd}
      (hRead : r.read want w = ((data, ending), r', w')) : Reads r w data ending w'
  | more {r r' : Reader} {want : Option Nat} {w w' w'' : World} {data more : Bytes} {ending ending' : ReadEnd}
      (hRead : r.read want w = ((data, ending'), r', w')) (hMore : Reads r' w' more ending w'') :
    Reads r w (data ++ more) ending w''

/-- Of what a script offers, `taken` bytes may have been taken. -/
def TakenOf : Background → Nat → Prop
  | .wait (.offer data false) _ _, taken => taken ≤ data.length
  | .wait (.offer _ true) _ _, _ => True
  | _, taken => taken = 0

theorem TakenOf.zero (r : Background) : TakenOf r 0 := by
  cases r with
  | done result state => rfl
  | wait why state resume =>
    cases why with
    | offer data endless => cases endless <;> simp [TakenOf]
    | _ => rfl

theorem TakenOf.eq_zero {why : Wait} {state : World} {resume : Signal → World → Background} {taken : Nat}
    (h : TakenOf (.wait why state resume) taken) (hOffer : why.isOffer = false) : taken = 0 := by
  cases why with
  | offer data endless => cases hOffer
  | _ => exact h

theorem pull_wait {why : Wait} (hOffer : why.isOffer = false) (hNever : why ≠ .never) (state : World)
    (resume : Signal → World → Background) (want : Option Nat) (taken : Nat) (w : World) :
    pull (.wait why state resume) want taken w = pull (resume .ready w) want 0 (resume .ready w).state := by
  cases why with
  | never => exact absurd rfl hNever
  | offer data endless => cases hOffer
  | _ => rfl

/-- The script from which `p` was pulled goes on as `p` says. -/
structure Pulled.Continues (p : Pulled) (r : Background) (taken : Nat) : Prop where
  world : p.world = p.run.state
  takenOf : TakenOf p.run p.taken
  drain : ∀ {rest : Bytes} {x : Except Fault String × World}, p.run.drain = some (rest, x) →
    ∃ all, r.drain = some (all, x) ∧ all.drop taken = p.data ++ rest.drop p.taken

theorem pull_continues {r : Background} {taken : Nat} (want : Option Nat) (hTaken : TakenOf r taken) :
    (pull r want taken r.state).Continues r taken := by
  induction r using Run.goingOn generalizing want taken with
  | done result state =>
    refine ⟨rfl, rfl, fun {rest x} h => ?_⟩
    cases h
    exact ⟨[], rfl, by simp [pull]⟩
  | wait why state resume hOffer hNever ih =>
    obtain rfl := hTaken.eq_zero hOffer
    obtain ⟨hWorld, hTakenOf, hDrain⟩ := ih want (TakenOf.zero _)
    rw [pull_wait hOffer hNever]
    refine ⟨hWorld, hTakenOf, fun {rest x} h => ?_⟩
    rw [Run.drain_wait hOffer hNever]
    exact hDrain h
  | offer data state resume ih =>
    have hFirst {p : Pulled} (h : p.Continues (resume .ready state) 0) :
        Pulled.Continues { p with data := data.drop taken ++ p.data } (.wait (.offer data false) state resume)
          taken := by
      refine ⟨h.world, h.takenOf, fun {rest x} hRest => ?_⟩
      obtain ⟨all, hAll, hEq⟩ := h.drain hRest
      refine ⟨data ++ all, ?_, ?_⟩
      · simp [Run.drain, hAll]
      · rw [List.drop_append_of_le_length hTaken, List.append_assoc, ← hEq, List.drop_zero]
    unfold pull
    dsimp only [Run.state]
    cases want with
    | none => exact hFirst (ih none (TakenOf.zero _))
    | some n =>
      dsimp only
      split
      · -- The offer is taken in part and stays.
        rename_i hLess
        have hLess' : taken + n ≤ data.length := by
          rw [List.length_drop] at hLess
          omega
        refine ⟨rfl, hLess', fun {rest x} hRest => ⟨rest, hRest, ?_⟩⟩
        obtain ⟨⟨more, y⟩, -, hEq⟩ := Option.map_eq_some_iff.mp hRest
        cases hEq
        dsimp only
        rw [List.drop_append_of_le_length hTaken, List.drop_append_of_le_length hLess', ← List.append_assoc,
          ← List.drop_drop, List.take_append_drop]
      · split
        · -- The rest of the offer is all that is wanted.
          exact hFirst ⟨rfl, TakenOf.zero _, fun {rest x} hRest => ⟨rest, hRest, rfl⟩⟩
        · exact hFirst (ih _ (TakenOf.zero _))
  | endless data state resume => exact ⟨rfl, trivial, fun h => by cases h⟩
  | never state resume => exact ⟨rfl, rfl, fun h => by cases h⟩

theorem pull_of_drain {r : Background} {data : Bytes} {result : Except Fault String} {w : World}
    (h : r.drain = some (data, result, w)) : pull r none 0 r.state = ⟨data, .done result w, 0, w⟩ := by
  induction r using Run.goingOn generalizing data with
  | done result state =>
    cases h
    rfl
  | wait why state resume hOffer hNever ih =>
    rw [Run.drain_wait hOffer hNever] at h
    rw [pull_wait hOffer hNever]
    exact ih h
  | offer data' state resume ih =>
    obtain ⟨⟨more, x⟩, hMore, hEq⟩ := Option.map_eq_some_iff.mp h
    cases hEq
    have hFirst (w : World) : pull (.wait (.offer data' false) state resume) none 0 w =
        { pull (resume .ready w) none 0 (resume .ready w).state with
          data := data' ++ (pull (resume .ready w) none 0 (resume .ready w).state).data } := rfl
    rw [hFirst, Run.state, ih hMore]
  | endless data' state resume => cases h
  | never state resume => cases h

namespace Reader

theorem read_idle {want : Option Nat} (h : want ≠ some 0) (start : World → Background) (w : World) :
    (Reader.idle start).read want w = (Reader.active (start w) 0).read want (start w).state := by
  rw [Reader.read, Reader.read, if_neg h, if_neg h]
  rfl

theorem read_active {want : Option Nat} (h : want ≠ some 0) (run : Background) (taken : Nat) (w : World) :
    (Reader.active run taken).read want w =
      (((pull run want taken w).data, readEnd want (pull run want taken w)),
        .active (pull run want taken w).run (pull run want taken w).taken, (pull run want taken w).world) := by
  rw [Reader.read, if_neg h]
  rfl

theorem readEnd_ne_full {want : Option Nat} {p : Pulled} (h : readEnd want p ≠ .full) :
    ∃ result state, p.run = .done result state ∧ readEnd want p = .ofFault (faultOf result) := by
  unfold readEnd at h ⊢
  split at h
  · exact absurd rfl h
  · rename_i hWant
    rw [if_neg hWant]
    cases hRun : p.run with
    | done result state =>
      refine ⟨result, state, rfl, ?_⟩
      cases result <;> rfl
    | wait why state resume =>
      rw [hRun] at h
      exact absurd rfl h

namespace Reads

theorem drain {run : Background} {taken : Nat} {data : Bytes} {ending : ReadEnd} {w : World}
    (h : (Reader.active run taken).Reads run.state data ending w) (hTaken : TakenOf run taken)
    (hEnd : ending ≠ .full) :
    ∃ all result, run.drain = some (all, result, w) ∧ data = all.drop taken ∧ ending = .ofFault (faultOf result) := by
  generalize hReader : Reader.active run taken = r at h
  generalize hWorld : run.state = w₀ at h
  induction h generalizing run taken with
  | @last r r' want w w' data ending hRead =>
    subst hReader hWorld
    by_cases hZero : want = some 0
    · subst hZero
      cases hRead
      exact absurd rfl hEnd
    · have hPulled := pull_continues want hTaken
      rw [read_active hZero] at hRead
      cases hRead
      obtain ⟨result, state, hRun, hResult⟩ := readEnd_ne_full hEnd
      have hDone : (pull run want taken run.state).run.drain = some ([], result, state) := by
        rw [hRun]
        rfl
      obtain ⟨all, hAll, hData⟩ := hPulled.drain hDone
      refine ⟨all, result, ?_, by simpa using hData.symm, hResult⟩
      rw [hAll, hPulled.world, hRun]
      rfl
  | @more r r' want w w' w'' data more ending ending' hRead hMore ih =>
    subst hReader hWorld
    by_cases hZero : want = some 0
    · subst hZero
      cases hRead
      exact ih hTaken hEnd rfl rfl
    · have hPulled := pull_continues want hTaken
      rw [read_active hZero] at hRead
      cases hRead
      obtain ⟨rest, result, hRest, rfl, hResult⟩ := ih hPulled.takenOf hEnd rfl hPulled.world.symm
      obtain ⟨all, hAll, hData⟩ := hPulled.drain hRest
      exact ⟨all, result, hAll, hData.symm, hResult⟩

theorem start {start : World → Background} {w w' : World} {data : Bytes} {ending : ReadEnd}
    (h : (Reader.idle start).Reads w data ending w') (hEnd : ending ≠ .full) :
    (Reader.active (start w) 0).Reads (start w).state data ending w' := by
  generalize hReader : Reader.idle start = r at h
  induction h with
  | @last r r' want w w' data ending hRead =>
    subst hReader
    by_cases hZero : want = some 0
    · subst hZero
      cases hRead
      exact absurd rfl hEnd
    · rw [read_idle hZero] at hRead
      exact .last hRead
  | @more r r' want w w' w'' data more ending ending' hRead hMore ih =>
    subst hReader
    by_cases hZero : want = some 0
    · subst hZero
      cases hRead
      exact ih hEnd rfl
    · rw [read_idle hZero] at hRead
      exact .more hRead hMore

theorem of_drain {start : World → Background} {w w' : World} {data : Bytes} {result : Except Fault String}
    (h : (start w).drain = some (data, result, w')) :
    (Reader.idle start).Reads w data (.ofFault (faultOf result)) w' := by
  have hRead : (Reader.idle start).read none w =
      ((data, .ofFault (faultOf result)), .active (.done result w') 0, w') := by
    rw [read_idle (by simp), read_active (by simp), pull_of_drain h]
    cases result <;> rfl
  exact .last hRead

end Reads

end Reader

theorem faultOf_answer (output : Output) (ss : List Statement) (tries : List (List Attempt)) :
    faultOf ((Statement.answer output ss tries).map capturedText) = Attempt.lastFault tries.flatten := by
  unfold Statement.answer
  cases Attempt.lastFault tries.flatten <;> rfl

namespace Script

variable (programs : Host.Programs) (context : Context) (script : Script) (w : World)

variable {programs context script w} in
/-- A script that comes to an end by itself when its output is captured can be read to its end, unless it offers
something without end. -/
theorem readable (hEnds : (script.execute programs context .capture w).drain.isSome = true)
    (hFloods : (script.execute programs context .stream w).floods = false) :
    ∃ data ending w', (Reader.idle (script.execute programs context .stream)).Reads w data ending w' ∧
      ending ≠ .full := by
  rw [execute_drain programs context script w (by simp), Option.isSome_map] at hEnds
  obtain ⟨⟨tries, phase⟩, hCapture⟩ := Option.isSome_iff_exists.mp hEnds
  have hDrain := execute_drain programs context script w (m := .stream) (by simp)
  rw [attempt_stream hCapture hFloods, Option.map_some] at hDrain
  refine ⟨_, _, _, .of_drain hDrain, ?_⟩
  unfold ReadEnd.ofFault
  split <;> simp

/-- A script does the same in every mode. One that comes to an end by itself when its output is captured can be read to
its end, unless it offers something without end. Then it attempts the same pipelines with the same results as when its
output is captured or goes to the host: each alternative after one that failed and is not ignored, each statement
after one that succeeded. Its fault is that of the last attempt, unless ignored, and it leaves the same world behind
but for what the host has received. The host receives all output, a reader that of the last statement, and what is
captured is the output of the attempt at the last statement that succeeded. The modes are compared under one schedule,
the engine's: from left to right each stage goes on as far as it can, so, but for one that runs in order, none leaves
before an earlier one that does not have to wait. -/
theorem modes_agree :
    ((script.execute programs context .capture w).drain.isSome = true →
      (script.execute programs context .stream w).floods = false →
      ∃ data ending w', (Reader.idle (script.execute programs context .stream)).Reads w data ending w' ∧
        ending ≠ .full) ∧
    ∀ data ending w', (Reader.idle (script.execute programs context .stream)).Reads w data ending w' →
      ending ≠ .full → ∃ tries : List (List Attempt),
      (∀ m, m ≠ .abandoned → (script.attempt programs context m w).map Prod.fst = some tries) ∧
      Statement.Tried script.statements tries ∧
      ending = .ofFault (Attempt.lastFault tries.flatten) ∧
      data = Attempt.outputs (Statement.lastTries script.statements tries) ∧
      (script.execute programs context .capture w).complete =
        (match Attempt.lastFault tries.flatten with
          | some fault => .error fault
          | none => .ok (capturedText (Attempt.text (Statement.lastTries script.statements tries))), w') ∧
      faultOf (script.execute programs context .run w).complete.1 = Attempt.lastFault tries.flatten ∧
      (script.execute programs context .run w).complete.2 =
        w'.withOutput (w.output ++ Attempt.outputs tries.flatten) := by
  refine ⟨readable, fun data ending w' hReads hEnd => ?_⟩
  obtain ⟨all, result, hDrain, rfl, hEnding⟩ := (hReads.start hEnd).drain (.zero _) hEnd
  rw [execute_drain programs context script w (by simp)] at hDrain
  obtain ⟨⟨tries, phase⟩, hStream, hEq⟩ := Option.map_eq_some_iff.mp hDrain
  cases hEq
  have hCapture := attempt_capture hStream
  have hRun := attempt_run hCapture
  have hCaptureDrain := execute_drain programs context script w (m := .capture) (by simp)
  have hRunDrain := execute_drain programs context script w (m := .run) (by simp)
  rw [hCapture, Option.map_some] at hCaptureDrain
  rw [hRun, Option.map_some] at hRunDrain
  refine ⟨tries, ?_, attempt_tried hStream, ?_, rfl, ?_, ?_, ?_⟩
  · intro m hMode
    cases m with
    | run => rw [hRun]; rfl
    | capture => rw [hCapture]; rfl
    | stream => rw [hStream]; rfl
    | abandoned => exact absurd rfl hMode
  · rw [hEnding, faultOf_answer]
  · rw [Run.complete_of_drain hCaptureDrain]
    unfold Statement.answer
    cases Attempt.lastFault tries.flatten <;> rfl
  · rw [Run.complete_of_drain hRunDrain, faultOf_answer]
  · rw [Run.complete_of_drain hRunDrain]
    rfl

/-- A command that says `word` and fails if there is a `cause`. -/
def saying (word : String) (cause : List String) : Command := ⟨["say", word, ""] ++ cause, [], []⟩

/-- A script whose first statement fails and is ignored, and whose second succeeds with the second alternative. -/
def fallingBack : Script :=
  ⟨[⟨⟨[saying "a" ["no"]], true, "", 1⟩, []⟩, ⟨⟨[saying "b" ["no"]], false, "", 2⟩, [⟨[saying "c" []], false, "", 2⟩]⟩]⟩

theorem modes_agree_fallingBack :
    ((fallingBack.execute [] ⟨[], some 0, false⟩ .capture (.bench [])).drain.isSome = true ∧
      (fallingBack.execute [] ⟨[], some 0, false⟩ .stream (.bench [])).floods = false) ∧
    ∃ data ending w',
      (Reader.idle (fallingBack.execute [] ⟨[], some 0, false⟩ .stream)).Reads (.bench []) data ending w' ∧
      ending ≠ .full ∧ ∃ tries : List (List Attempt),
        (∀ m, m ≠ .abandoned → (fallingBack.attempt [] ⟨[], some 0, false⟩ m (.bench [])).map Prod.fst = some tries) ∧
        Statement.Tried fallingBack.statements tries ∧
        data = Attempt.outputs (Statement.lastTries fallingBack.statements tries) ∧
        Attempt.outputs tries.flatten = utf8 "a\nb\nc\n" := by
  obtain ⟨hReadable, hAgree⟩ := modes_agree [] ⟨[], some 0, false⟩ fallingBack (.bench [])
  have hEnds : (fallingBack.execute [] ⟨[], some 0, false⟩ .capture (.bench [])).drain.isSome = true := by
    decide +kernel
  have hFloods : (fallingBack.execute [] ⟨[], some 0, false⟩ .stream (.bench [])).floods = false := by
    decide +kernel
  have hReceived : (fallingBack.execute [] ⟨[], some 0, false⟩ .run (.bench [])).complete.2.output =
      utf8 "a\nb\nc\n" := by
    decide +kernel
  obtain ⟨data, ending, w', hReads, hEnd⟩ := hReadable hEnds hFloods
  obtain ⟨tries, hTries, hTried, -, hLast, -, -, hRun⟩ := hAgree data ending w' hReads hEnd
  rw [hRun] at hReceived
  exact ⟨⟨hEnds, hFloods⟩, data, ending, w', hReads, hEnd, tries, hTries, hTried, hLast, hReceived⟩

end Script

end Pipework
