import Mathlib.Data.Finset.Basic
import Mathlib.Data.Finset.Dedup
import Mathlib.Data.Fintype.EquivFin
import Mathlib.Data.List.Induction
import Pipework.Proofs.Modes.Mirror
import Pipework.Reader

/-!
# Scripts in the background

A script in the background goes on while others make calls that concern it. Here the two take turns in any
order: between two waits of the script any number of steps of any number of calls may be made, and the world
may be changed by others. The script is a run, of which nothing else is assumed. What happened so far is
kept in order, so that it can be said what came before what.
-/

namespace Pipework

section Histories

variable {σ ε : Type} {Step : List ε → σ → ε → σ → Prop} {s t : σ} {events : List ε}

/-- The events that lead from `s` to a state. What can happen next may depend on what has happened. -/
inductive History (Step : List ε → σ → ε → σ → Prop) (s : σ) : List ε → σ → Prop
  | nil : History Step s [] s
  | snoc {events : List ε} {t u : σ} {e : ε} (h : History Step s events t) (hStep : Step events t e u) :
    History Step s (events ++ [e]) u

theorem History.split (h : History Step s events t) {before after : List ε} {e : ε}
    (hSplit : events = before ++ e :: after) : ∃ u v, History Step s before u ∧ Step before u e v := by
  induction h generalizing after with
  | nil => simp at hSplit
  | @snoc events u v last h hStep ih =>
    rcases List.eq_nil_or_concat after with rfl | ⟨after, last', rfl⟩
    · obtain ⟨rfl, hLast⟩ := List.append_inj' hSplit rfl
      cases hLast
      exact ⟨u, v, h, hStep⟩
    · rw [List.concat_eq_append, ← List.cons_append, ← List.append_assoc] at hSplit
      exact ih (List.append_inj_left' hSplit rfl)

theorem History.last {e : ε} (h : History Step s (events ++ [e]) t) :
    ∃ u, History Step s events u ∧ Step events u e t := by
  generalize hEvents : events ++ [e] = all at h
  cases h with
  | nil => simp at hEvents
  | snoc h hStep =>
    obtain ⟨rfl, hLast⟩ := List.append_inj' hEvents rfl
    cases hLast
    exact ⟨_, h, hStep⟩

theorem History.keeps {P : σ → Prop} (hKeep : ∀ {past : List ε} {t u : σ} {e : ε}, P t → Step past t e u → P u)
    {more : List ε} (h : History Step s (events ++ more) t) (hThen : ∀ u, History Step s events u → P u) : P t := by
  induction more using List.reverseRecOn generalizing t with
  | nil => exact hThen t (by simpa using h)
  | append_singleton more e ih =>
    rw [← List.append_assoc] at h
    obtain ⟨u, hMore, hStep⟩ := h.last
    exact hKeep (ih hMore) hStep

theorem History.invariant {P : List ε → σ → Prop} (h : History Step s events t) (hStart : P [] s)
    (hStep : ∀ {events : List ε} {t u : σ} {e : ε}, P events t → Step events t e u → P (events ++ [e]) u) :
    P events t := by
  induction h with
  | nil => exact hStart
  | snoc _ hLast ih => exact hStep ih hLast

def doneBy (call? : ε → Option Nat) (id : Nat) (events : List ε) : List ε :=
  events.filter fun e => call? e == some id

theorem mem_of_doneBy {call? : ε → Option Nat} {id : Nat} {events own : List ε}
    (h : doneBy call? id events = own) {e : ε} (hMem : e ∈ own) : e ∈ events := by
  subst h
  exact List.mem_of_mem_filter hMem

theorem mem_doneBy {call? : ε → Option Nat} {id : Nat} {events own : List ε}
    (h : doneBy call? id events = own) {e : ε} (hMem : e ∈ events) (hCall : call? e = some id) : e ∈ own := by
  subst h
  exact List.mem_filter.mpr ⟨hMem, by simp [hCall]⟩

@[simp] theorem doneBy_append (call? : ε → Option Nat) (id : Nat) (events more : List ε) :
    doneBy call? id (events ++ more) = doneBy call? id events ++ doneBy call? id more :=
  List.filter_append events more

theorem doneBy_concat {call? : ε → Option Nat} {id : Nat} {events own : List ε} (h : doneBy call? id events = own)
    {e : ε} (hCall : call? e = some id) : doneBy call? id (events ++ [e]) = own ++ [e] := by
  rw [doneBy_append, h]
  simp [doneBy, hCall]

theorem doneBy_map {α : Type} {call? : ε → Option Nat} {f : α → ε} (h : ∀ x, call? (f x) = none) (id : Nat)
    (xs : List α) : doneBy call? id (xs.map f) = [] := by
  simp [doneBy, h]

theorem earlier_or_later {p q c d : List ε} {x y : ε} (h : p ++ x :: q = c ++ y :: d) (hNe : x ≠ y) :
    (∃ r, p = c ++ y :: r) ∨ ∃ r, c = p ++ x :: r := by
  rcases List.append_eq_append_iff.mp h with ⟨r, rfl, hRest⟩ | ⟨r, rfl, hRest⟩
  · cases r with
    | nil => exact absurd (List.cons.inj hRest).1 hNe
    | cons z r =>
      cases hRest
      exact .inr ⟨r, rfl⟩
  · cases r with
    | nil => exact absurd (List.cons.inj hRest).1.symm hNe
    | cons z r =>
      cases hRest
      exact .inl ⟨r, rfl⟩

theorem first_of_call {call? : ε → Option Nat} {id : Nat} {events p q c d : List ε} {x y : ε}
    (hFirst : events = c ++ x :: d) (hNew : doneBy call? id c = []) (hOther : events = p ++ y :: q)
    (hCall : call? y = some id) (hNe : y ≠ x) : ∃ r, p = c ++ x :: r := by
  rcases earlier_or_later (hOther.symm.trans hFirst) hNe with hLater | ⟨r, rfl⟩
  · exact hLater
  · have hOwn := mem_doneBy hNew (List.mem_append_right p List.mem_cons_self) hCall
    cases hOwn

theorem exists_unmade (call? : ε → Option Nat) (events : List ε) : ∃ id, doneBy call? id events = [] := by
  obtain ⟨id, hId⟩ := Infinite.exists_notMem_finset (events.filterMap call?).toFinset
  refine ⟨id, List.filter_eq_nil_iff.mpr fun e he hCall => hId ?_⟩
  rw [List.mem_toFinset, List.mem_filterMap]
  exact ⟨e, he, by simpa using hCall⟩

end Histories

def Wait.offered : Wait → Bytes
  | .offer data _ => data
  | _ => []

theorem Wait.offered_of_not_offer {why : Wait} (h : why.isOffer = false) : why.offered = [] := by
  cases why with
  | offer data endless => cases h
  | _ => rfl

def Run.offered {σ α : Type} : Run σ α → Bytes
  | .done _ _ => []
  | .wait why _ _ => why.offered

/-- How far a script in the background has come. -/
inductive Progress where
  | idle (start : World → Background)
  | due (next : World → Background)
  /-- It waits. Of what it offers, `taken` bytes have been taken. -/
  | waiting (why : Wait) (resume : Signal → World → Background) (taken : Nat)
  | ended (result : Except Fault String)
  /-- It has been noted that the script has finished. -/
  | noted (result : Except Fault String)
  /-- Its output has been brought to an end. -/
  | sealed (result : Except Fault String)
  /-- Nothing is left to do, and those who wait for the script can go on. -/
  | done (result : Except Fault String)

/-- What a script goes on with when all that it offers has been taken. Something endless is offered again. -/
def afterOffer (data : Bytes) (endless : Bool) (resume : Signal → World → Background) : World → Background :=
  if endless then fun w => .wait (.offer data true) w resume else resume .ready

namespace Progress

def ofRun : Background → Progress
  | .done result _ => .ended result
  | .wait why _ resume => .waiting why resume 0

/-- A script that offers `data`, of which `taken` bytes have been taken by now. -/
def offering (data : Bytes) (endless : Bool) (resume : Signal → World → Background) (taken : Nat) : Progress :=
  if taken < data.length then .waiting (.offer data endless) resume taken else .due (afterOffer data endless resume)

def begin : Progress → Progress
  | .idle start => .due start
  | p => p

def isIdle : Progress → Bool
  | .idle _ => true
  | _ => false

/-- What the script has come to, once that has been noted. -/
def result? : Progress → Option (Except Fault String)
  | .noted result | .sealed result | .done result => some result
  | _ => none

def ending? : Progress → Option (Option Fault)
  | .sealed result | .done result => some (faultOf result)
  | _ => none

def left : Progress → Bytes
  | .waiting why _ taken => why.offered.drop taken
  | _ => []

/-- A step of the script, which writes `written` to its consumer. It hears that it has been stopped if it was
canceled, but only while it offers nothing: an offer is given up when the consumer has gone. -/
inductive Moves (canceled gone : Bool) : Progress × World → (written : Bytes) → Progress × World → Prop
  | go {next : World → Background} {w : World} :
    Moves canceled gone (.due next, w) (next w).offered (.ofRun (next w), (next w).state)
  | ready {why : Wait} {resume : Signal → World → Background} {taken : Nat} {w : World}
      (hOffer : why.isOffer = false) (hNever : why ≠ .never) :
    Moves canceled gone (.waiting why resume taken, w) [] (.due (resume .ready), w)
  | stop {why : Wait} {resume : Signal → World → Background} {taken : Nat} {w : World}
      (hStop : (if why.isOffer then gone else canceled) = true) :
    Moves canceled gone (.waiting why resume taken, w) [] (.due (resume (.stop taken)), w)

/-- Several steps of the script, with what it writes in each. -/
inductive Goes (canceled gone : Bool) : Progress × World → (written : List Bytes) → Progress × World → Prop
  | nil {x : Progress × World} : Goes canceled gone x [] x
  | cons {x y z : Progress × World} {written : Bytes} {more : List Bytes} (hMoves : Moves canceled gone x written y)
      (hMore : Goes canceled gone y more z) : Goes canceled gone x (written :: more) z

/-- The script of a run that has gone as far as it can; `taken` bytes of what it offers have been taken. -/
def settled : Background → (taken : Nat) → Progress
  | .done result _, _ => .done result
  | .wait why _ resume, taken => .waiting why resume taken

@[simp] theorem isIdle_begin (p : Progress) : p.begin.isIdle = false := by cases p <;> rfl

@[simp] theorem result?_begin (p : Progress) : p.begin.result? = p.result? := by cases p <;> rfl

@[simp] theorem ending?_begin (p : Progress) : p.begin.ending? = p.ending? := by cases p <;> rfl

@[simp] theorem left_begin (p : Progress) : p.begin.left = p.left := by cases p <;> rfl

theorem isIdle_of_result? {p : Progress} {result : Except Fault String} (h : p.result? = some result) :
    p.isIdle = false := by
  cases p with
  | idle start => cases h
  | _ => rfl

theorem result?_of_ending? {p : Progress} {fault : Option Fault} (h : p.ending? = some fault) :
    ∃ result, p.result? = some result ∧ fault = faultOf result := by
  cases p with
  | sealed result | done result =>
    cases h
    exact ⟨result, rfl, rfl⟩
  | _ => cases h

theorem left_of_ending? {p : Progress} {fault : Option Fault} (h : p.ending? = some fault) : p.left = [] := by
  cases p with
  | waiting why resume taken => cases h
  | _ => rfl

theorem offering_of_unfinished (data : Bytes) (endless : Bool) (resume : Signal → World → Background) (taken : Nat) :
    (offering data endless resume taken).isIdle = false ∧ (offering data endless resume taken).result? = none ∧
      (offering data endless resume taken).ending? = none := by
  unfold offering
  split <;> exact ⟨rfl, rfl, rfl⟩

theorem left_offering {data : Bytes} {endless : Bool} {resume : Signal → World → Background} {taken : Nat} :
    (offering data endless resume taken).left = data.drop taken := by
  unfold offering
  split
  · rfl
  · next h => exact (List.drop_eq_nil_iff.mpr (Nat.le_of_not_lt h)).symm

theorem left_ofRun (r : Background) : (ofRun r).left = r.offered := by
  cases r <;> rfl

theorem Moves.unfinished {canceled gone : Bool} {x y : Progress × World} {written : Bytes}
    (h : Moves canceled gone x written y) :
    x.1.isIdle = false ∧ x.1.result? = none ∧ y.1.isIdle = false ∧ y.1.result? = none ∧ y.1.ending? = none := by
  cases h with
  | @go next w =>
    refine ⟨rfl, rfl, ?_⟩
    cases next w <;> exact ⟨rfl, rfl, rfl⟩
  | ready _ _ => exact ⟨rfl, rfl, rfl, rfl, rfl⟩
  | stop _ => exact ⟨rfl, rfl, rfl, rfl, rfl⟩

theorem goes_finish (r : Background) :
    ∃ written, Goes true true (.ofRun r, r.state) written (.ended r.finish.1, r.finish.2) := by
  induction r with
  | done result state => exact ⟨[], .nil⟩
  | wait why state resume ih =>
    obtain ⟨written, hGoes⟩ := ih (.stop 0) state
    exact ⟨_, .cons (.stop (by simp)) (.cons .go hGoes)⟩

theorem Goes.history {σ ε : Type} {Step : List ε → σ → ε → σ → Prop} {s : σ} {events : List ε} {canceled gone : Bool}
    {x y : Progress × World} {written : List Bytes} (hGoes : Goes canceled gone x written y) (runs : Bytes → ε)
    (put : Progress × World → σ)
    (hRun : ∀ {past x data y}, Moves canceled gone x data y → Step past (put x) (runs data) (put y))
    (h : History Step s events (put x)) : History Step s (events ++ written.map runs) (put y) := by
  induction hGoes generalizing events with
  | nil => simpa using h
  | cons hMoves _ ih => simpa using ih (h.snoc (hRun hMoves))

theorem goes_stop (why : Wait) (state : World) (resume : Signal → World → Background) (taken : Nat) (w : World) :
    ∃ written, Goes true true (.waiting why resume taken, w) written
      (.ended (stopRun (.wait why state resume) taken w).1, (stopRun (.wait why state resume) taken w).2) := by
  obtain ⟨written, hGoes⟩ := goes_finish (resume (.stop taken) w)
  exact ⟨_, .cons (.stop (by simp)) (.cons .go hGoes)⟩

end Progress

end Pipework
