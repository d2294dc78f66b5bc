import Mathlib.Data.List.Induction
import Mathlib.Data.List.Infix
import Mathlib.Data.List.Nodup
import Pipework.Mock

/-!
# Which pattern serves a call

Of the patterns that a call begins with, the longest serves it. A pattern is registered once only, whether
for a queue or for a handler and however often, so that there is no other of the same length; and then the
order in which patterns were registered does not matter.
-/

namespace Pipework.Mock

section Tables

variable {κ β : Type}

section

variable [DecidableEq κ]

theorem lookup_assign [BEq κ] [LawfulBEq κ] (k k' : κ) (v : β) (l : List (κ × β)) :
    (assign k v l).lookup k' = if k' = k then some v else l.lookup k' := by
  induction l with
  | nil =>
    by_cases hSame : k' = k
    · simp [assign, hSame]
    · simp [assign, List.lookup_cons, beq_false_of_ne hSame, hSame]
  | cons entry rest ih =>
    obtain ⟨key, value⟩ := entry
    rw [assign]
    split
    · next hKey =>
      subst hKey
      by_cases hSame : k' = key
      · simp [hSame]
      · simp [List.lookup_cons, beq_false_of_ne hSame, hSame]
    · next hKey =>
      rw [List.lookup_cons, List.lookup_cons, ih]
      by_cases hSame : k' = key
      · simp [hSame, hKey]
      · simp [beq_false_of_ne hSame]

theorem keys_assign (k : κ) (v : β) (l : List (κ × β)) :
    (assign k v l).map Prod.fst = if k ∈ l.map Prod.fst then l.map Prod.fst else l.map Prod.fst ++ [k] := by
  induction l with
  | nil => simp [assign]
  | cons entry rest ih =>
    obtain ⟨key, value⟩ := entry
    rw [assign]
    split
    · next hKey => simp [hKey]
    · next hKey =>
      by_cases hMem : k ∈ rest.map Prod.fst
      · rw [List.map_cons, ih, List.map_cons, if_pos hMem, if_pos (List.mem_cons_of_mem key hMem)]
      · have hNew : k ∉ key :: rest.map Prod.fst := by simp [Ne.symm hKey, hMem]
        rw [List.map_cons, ih, List.map_cons, if_neg hMem, if_neg hNew, List.cons_append]

theorem nodup_assign (k : κ) (v : β) {l : List (κ × β)} (h : (l.map Prod.fst).Nodup) :
    ((assign k v l).map Prod.fst).Nodup := by
  rw [keys_assign]
  split
  · exact h
  · next hNew =>
    rw [← List.concat_eq_append]
    exact List.Nodup.concat hNew h

end

variable [BEq κ] [LawfulBEq κ] {k : κ} {v : β} {l : List (κ × β)}

theorem isSome_lookup_iff : (l.lookup k).isSome = true ↔ k ∈ l.map Prod.fst := by
  simp [List.lookup_isSome_iff]

theorem mem_keys_of_lookup (h : l.lookup k = some v) : k ∈ l.map Prod.fst :=
  isSome_lookup_iff.mp (h ▸ rfl)

theorem lookup_of_not_mem_keys (h : k ∉ l.map Prod.fst) : l.lookup k = none :=
  Option.not_isSome_iff_eq_none.mp (mt isSome_lookup_iff.mp h)

theorem lookup_eq_some_iff_mem (h : (l.map Prod.fst).Nodup) : l.lookup k = some v ↔ (k, v) ∈ l := by
  rw [List.lookup_eq_some_iff]
  constructor
  · rintro ⟨before, after, rfl, -⟩
    exact List.mem_append_right before List.mem_cons_self
  · intro hMem
    obtain ⟨before, after, rfl⟩ := List.append_of_mem hMem
    refine ⟨before, after, rfl, fun entry hEntry => ?_⟩
    rw [List.map_append, List.map_cons, List.nodup_append] at h
    have hNe := h.2.2 entry.1 (List.mem_map_of_mem hEntry) k List.mem_cons_self
    simpa using Ne.symm hNe

omit [BEq κ] [LawfulBEq κ] in
theorem forall_keys_concat {entry : κ × β} {Q : κ → Prop} :
    (∀ key ∈ (l ++ [entry]).map Prod.fst, Q key) ↔ (∀ key ∈ l.map Prod.fst, Q key) ∧ Q entry.1 := by
  rw [List.map_append, List.forall_mem_append, List.map_singleton, List.forall_mem_singleton]

end Tables

variable {α : Type} {m : Mock α}

def patterns (m : Mock α) : List Pattern := m.handlers.map Prod.fst

/-- Calls with `args` are for `handler`, which is registered under `pattern`. -/
structure Serves (m : Mock α) (args : List String) (pattern : Pattern) (handler : Handler α) : Prop where
  registered : m.handlers.lookup pattern = some handler
  begins : pattern <+: args
  longest : ∀ other ∈ m.patterns, other <+: args → other.length ≤ pattern.length

theorem Serves.unique {args : List String} {p q : Pattern} {h k : Handler α} (hp : m.Serves args p h)
    (hq : m.Serves args q k) : p = q ∧ h = k := by
  have hLength : p.length = q.length :=
    Nat.le_antisymm (hq.longest p (mem_keys_of_lookup hp.registered) hp.begins)
      (hp.longest q (mem_keys_of_lookup hq.registered) hq.begins)
  have hSame : p = q := (List.prefix_of_prefix_length_le hp.begins hq.begins hLength.le).eq_of_length hLength
  subst hSame
  exact ⟨rfl, Option.some.inj (hp.registered.symm.trans hq.registered)⟩

/-- What is to be taken when the patterns of `l` are looked through for those that `args` begin with. -/
def Picks (args : List String) (l : List (Pattern × Handler α)) : Option (Pattern × Handler α) → Prop
  | none => ∀ other ∈ l.map Prod.fst, ¬ other <+: args
  | some (pattern, handler) =>
    l.lookup pattern = some handler ∧ pattern <+: args ∧
      ∀ other ∈ l.map Prod.fst, other <+: args → other.length ≤ pattern.length

/-- Of two patterns that `args` begin with, the later one is taken if it is longer. -/
def better (args : List String) (best : Option (Pattern × Handler α)) (candidate : Pattern × Handler α) :
    Option (Pattern × Handler α) :=
  if candidate.1.isPrefixOf args
      && (match best with
        | none => true
        | some (pattern, _) => pattern.length < candidate.1.length) then
    some candidate
  else best

theorem Picks.concat {args : List String} {l : List (Pattern × Handler α)} {best : Option (Pattern × Handler α)}
    (h : Picks args l best) (candidate : Pattern × Handler α) :
    Picks args (l ++ [candidate]) (better args best candidate) := by
  obtain ⟨q, k⟩ := candidate
  -- A pattern that is taken as the longest so far has not been seen before.
  have hTake (hBegins : q <+: args) (hNew : q ∉ l.map Prod.fst)
      (hLongest : ∀ other ∈ l.map Prod.fst, other <+: args → other.length ≤ q.length) :
      Picks args (l ++ [(q, k)]) (some (q, k)) := by
    refine ⟨?_, hBegins, forall_keys_concat.mpr ⟨hLongest, fun _ => le_rfl⟩⟩
    simp [List.lookup_append, lookup_of_not_mem_keys hNew]
  cases best with
  | none =>
    by_cases hBegins : q <+: args
    · have hBetter : better args none (q, k) = some (q, k) := by
        simp [better, List.isPrefixOf_iff_prefix.mpr hBegins]
      rw [hBetter]
      exact hTake hBegins (fun hMem => h q hMem hBegins) fun other hOther hPrefix => absurd hPrefix (h other hOther)
    · have hBetter : better args none (q, k) = none := by
        simp [better, List.isPrefixOf_iff_prefix, hBegins]
      rw [hBetter]
      exact forall_keys_concat.mpr ⟨h, hBegins⟩
  | some best =>
    obtain ⟨p, handler⟩ := best
    obtain ⟨hFound, hPrefix, hLongest⟩ := h
    by_cases hLonger : q <+: args ∧ p.length < q.length
    · have hBetter : better args (some (p, handler)) (q, k) = some (q, k) := by
        simp [better, List.isPrefixOf_iff_prefix.mpr hLonger.1, hLonger.2]
      rw [hBetter]
      exact hTake hLonger.1 (fun hMem => Nat.not_le.mpr hLonger.2 (hLongest q hMem hLonger.1))
        fun other hOther hOtherPrefix => (hLongest other hOther hOtherPrefix).trans hLonger.2.le
    · have hBetter : better args (some (p, handler)) (q, k) = some (p, handler) := by
        simpa [better, List.isPrefixOf_iff_prefix] using fun hBegins hLength => absurd ⟨hBegins, hLength⟩ hLonger
      rw [hBetter]
      refine ⟨by simp [List.lookup_append, hFound], hPrefix, forall_keys_concat.mpr ⟨hLongest, fun hBegins => ?_⟩⟩
      exact Nat.not_lt.mp fun hLength => hLonger ⟨hBegins, hLength⟩

theorem picks_dispatch (m : Mock α) (args : List String) : Picks args m.handlers (m.dispatch args) := by
  have hAll (l : List (Pattern × Handler α)) : Picks args l (l.foldl (better args) none) := by
    induction l using List.reverseRecOn with
    | nil => exact List.forall_mem_nil _
    | append_singleton l candidate ih =>
      rw [List.foldl_concat]
      exact ih.concat candidate
  exact hAll m.handlers

theorem dispatch_eq_some_iff {args : List String} {p : Pattern} {h : Handler α} :
    m.dispatch args = some (p, h) ↔ m.Serves args p h := by
  have hPicks := picks_dispatch m args
  constructor
  · intro hFound
    rw [hFound] at hPicks
    exact ⟨hPicks.1, hPicks.2.1, hPicks.2.2⟩
  · intro hServes
    cases hFound : m.dispatch args with
    | none =>
      rw [hFound] at hPicks
      exact absurd hServes.begins (hPicks p (mem_keys_of_lookup hServes.registered))
    | some found =>
      rw [hFound] at hPicks
      obtain ⟨rfl, rfl⟩ := hServes.unique ⟨hPicks.1, hPicks.2.1, hPicks.2.2⟩
      rfl

theorem dispatch_eq_none_iff {args : List String} :
    m.dispatch args = none ↔ ∀ p ∈ m.patterns, ¬ p <+: args := by
  have hPicks := picks_dispatch m args
  constructor
  · intro hFound
    rwa [hFound] at hPicks
  · intro hNone
    cases hFound : m.dispatch args with
    | none => rfl
    | some found =>
      rw [hFound] at hPicks
      exact absurd hPicks.2.1 (hNone found.1 (mem_keys_of_lookup hPicks.1))

section Reachable

/-- The mocks that there can be. Responses are queued, handlers are registered and calls are received; in the end a
call may keep the text of its response, and anything else may come before that. -/
inductive Reachable : Mock α → Prop
  | empty : Reachable .empty
  | enqueue {m : Mock α} (h : Reachable m) (response : Response) (pattern : Pattern) :
    Reachable (m.enqueue response pattern)
  | register {m : Mock α} (h : Reachable m) (handler : α) (pattern : Pattern) :
    Reachable (m.register (.other handler) pattern)
  | receive {m : Mock α} (h : Reachable m) (call : Call) : Reachable (m.receive call).1
  | capture {m : Mock α} (h : Reachable m) (pattern : Pattern) (text : Bytes) : Reachable (m.capture pattern text)

theorem handlers_enqueue (m : Mock α) (response : Response) (pattern : Pattern) :
    (m.enqueue response pattern).handlers =
      if (m.responses.lookup pattern).isSome then m.handlers else assign pattern .queue m.handlers := by
  unfold enqueue
  cases m.responses.lookup pattern with
  | none => rfl
  | some queue =>
    dsimp only
    split <;> rfl

@[simp] theorem handlers_serve (m : Mock α) (pattern : Pattern) : (m.serve pattern).1.handlers = m.handlers := by
  unfold serve
  split
  · rfl
  · split <;> rfl

def record (m : Mock α) (call : Call) : Mock α := { m with calls := m.calls ++ [call] }

/-- What a handler that is registered under `pattern` makes of a call. -/
def obey (m : Mock α) (pattern : Pattern) : Handler α → Mock α × Answer α
  | .queue => m.serve pattern
  | .other handler => (m, .handler handler)

theorem receive_eq (m : Mock α) (call : Call) :
    m.receive call =
      (m.dispatch call.args).elim (m.record call, .nothing) fun found => (m.record call).obey found.1 found.2 := by
  have hSame : ({ m with calls := m.calls ++ [call] } : Mock α).dispatch call.args = m.dispatch call.args := rfl
  unfold receive
  dsimp only
  rw [hSame]
  rcases m.dispatch call.args with _ | ⟨pattern, _ | handler⟩ <;> rfl

theorem receive_of_serves {call : Call} {pattern : Pattern} {handler : Handler α}
    (h : m.Serves call.args pattern handler) : m.receive call = (m.record call).obey pattern handler := by
  rw [receive_eq, dispatch_eq_some_iff.mpr h, Option.elim_some]

theorem receive_of_none {call : Call} (h : ∀ p ∈ m.patterns, ¬ p <+: call.args) :
    m.receive call = (m.record call, .nothing) := by
  rw [receive_eq, dispatch_eq_none_iff.mpr h, Option.elim_none]

theorem serves_or_none (m : Mock α) (args : List String) :
    (∃ pattern handler, m.Serves args pattern handler) ∨ ∀ p ∈ m.patterns, ¬ p <+: args := by
  cases hFound : m.dispatch args with
  | none => exact .inr (dispatch_eq_none_iff.mp hFound)
  | some found => exact .inl ⟨found.1, found.2, dispatch_eq_some_iff.mp hFound⟩

@[simp] theorem handlers_receive (m : Mock α) (call : Call) : (m.receive call).1.handlers = m.handlers := by
  rcases m.serves_or_none call.args with ⟨pattern, handler, hServes⟩ | hNone
  · rw [receive_of_serves hServes]
    cases handler with
    | queue => exact handlers_serve (m.record call) pattern
    | other handler => rfl
  · rw [receive_of_none hNone]
    rfl

theorem Reachable.nodup (h : m.Reachable) : m.patterns.Nodup := by
  unfold patterns
  induction h with
  | empty => exact List.nodup_nil
  | enqueue h response pattern ih =>
    rw [handlers_enqueue]
    split
    · exact ih
    · exact nodup_assign pattern .queue ih
  | register h handler pattern ih => exact nodup_assign pattern (.other handler) ih
  | receive h call ih => rwa [handlers_receive]
  | capture h pattern text ih => exact ih

end Reachable

section Order

theorem mem_patterns_iff {p : Pattern} : p ∈ m.patterns ↔ (m.handlers.lookup p).isSome = true :=
  isSome_lookup_iff.symm

theorem Serves.congr {m' : Mock α} (h : ∀ p, m.handlers.lookup p = m'.handlers.lookup p) {args : List String}
    {p : Pattern} {handler : Handler α} (hServes : m.Serves args p handler) : m'.Serves args p handler where
  registered := (h p).symm.trans hServes.registered
  begins := hServes.begins
  longest other hOther := hServes.longest other (by rwa [mem_patterns_iff, h, ← mem_patterns_iff])

/-- A pattern with what calls that begin with it are to be given. -/
inductive Registration (α : Type) where
  | queue (response : Response) (pattern : Pattern)
  | handle (handler : α) (pattern : Pattern)

def Registration.pattern : Registration α → Pattern
  | .queue _ pattern | .handle _ pattern => pattern

def enroll (m : Mock α) : Registration α → Mock α
  | .queue response pattern => m.enqueue response pattern
  | .handle handler pattern => m.register (.other handler) pattern

/-- What is registered under `p`, and whether there is a queue for it. -/
def slot (m : Mock α) (p : Pattern) : Option (Handler α) × Bool :=
  (m.handlers.lookup p, (m.responses.lookup p).isSome)

/-- What a registration makes of what is there for its pattern. -/
def Registration.fill (old : Option (Handler α) × Bool) : Registration α → Option (Handler α) × Bool
  | .queue _ _ => (if old.2 then old.1 else some .queue, true)
  | .handle handler _ => (some (.other handler), old.2)

theorem isSome_lookup_enqueue (m : Mock α) (response : Response) (pattern p : Pattern) :
    ((m.enqueue response pattern).responses.lookup p).isSome =
      if p = pattern then true else (m.responses.lookup p).isSome := by
  unfold enqueue
  cases hQueue : m.responses.lookup pattern with
  | none =>
    by_cases hp : p = pattern
    · simp [register, List.lookup_append, hp]
    · simp [register, List.lookup_append, List.lookup_cons, beq_false_of_ne hp, hp]
  | some queue =>
    dsimp only
    split
    all_goals
      by_cases hp : p = pattern <;> simp [lookup_assign, hp]

theorem slot_enroll (m : Mock α) (x : Registration α) (p : Pattern) :
    (m.enroll x).slot p = if x.pattern = p then x.fill (m.slot p) else m.slot p := by
  unfold slot
  cases x with
  | queue response pattern =>
    rw [enroll, handlers_enqueue, isSome_lookup_enqueue, Registration.pattern]
    by_cases hp : pattern = p
    · subst hp
      cases hQueue : (m.responses.lookup pattern).isSome <;> simp [Registration.fill, lookup_assign]
    · rw [if_neg hp, if_neg (Ne.symm hp)]
      split
      · rfl
      · rw [lookup_assign, if_neg (Ne.symm hp)]
  | handle handler pattern =>
    rw [enroll, register, lookup_assign, Registration.pattern]
    by_cases hp : pattern = p
    · simp [Registration.fill, hp]
    · simp [hp, Ne.symm hp]

theorem slot_enrollAll (m : Mock α) (xs : List (Registration α)) (p : Pattern) :
    (xs.foldl enroll m).slot p = (xs.filter (·.pattern == p)).foldl Registration.fill (m.slot p) := by
  induction xs generalizing m with
  | nil => rfl
  | cons x xs ih =>
    rw [List.foldl_cons, ih, slot_enroll]
    by_cases hp : x.pattern = p
    · rw [List.filter_cons_of_pos (by simpa using hp), if_pos hp, List.foldl_cons]
    · rw [List.filter_cons_of_neg (by simpa using hp), if_neg hp]

theorem filter_pattern_eq {xs ys : List (Registration α)} (hPerm : xs.Perm ys)
    (hNodup : (xs.map Registration.pattern).Nodup) (p : Pattern) :
    xs.filter (·.pattern == p) = ys.filter (·.pattern == p) := by
  have hSame : (xs.filter (·.pattern == p)).Perm (ys.filter (·.pattern == p)) := hPerm.filter _
  have hOnce : (xs.filter (·.pattern == p)).length ≤ 1 := by
    have hCount := List.nodup_iff_count_le_one.mp hNodup p
    rw [List.count_eq_countP, List.countP_map, List.countP_eq_length_filter] at hCount
    exact hCount
  generalize xs.filter (·.pattern == p) = l at hSame hOnce
  match l, hOnce with
  | [], _ => exact hSame.nil_eq
  | [x], _ => exact List.singleton_perm.mp hSame

theorem lookup_enrollAll_perm (m : Mock α) {xs ys : List (Registration α)} (hPerm : xs.Perm ys)
    (hNodup : (xs.map Registration.pattern).Nodup) (p : Pattern) :
    (xs.foldl enroll m).handlers.lookup p = (ys.foldl enroll m).handlers.lookup p := by
  have hSlots : (xs.foldl enroll m).slot p = (ys.foldl enroll m).slot p := by
    rw [slot_enrollAll, slot_enrollAll, filter_pattern_eq hPerm hNodup]
  exact congrArg Prod.fst hSlots

theorem dispatch_congr {m' : Mock α} (h : ∀ p, m.handlers.lookup p = m'.handlers.lookup p) (args : List String) :
    m.dispatch args = m'.dispatch args := by
  apply Option.ext
  rintro ⟨pattern, handler⟩
  rw [dispatch_eq_some_iff, dispatch_eq_some_iff]
  exact ⟨.congr h, .congr fun p => (h p).symm⟩

/-- A mock has each pattern once, so that a call is served under the one longest pattern that it begins with, or is
given nothing if it begins with none. Which one that is does not depend on the order in which they were registered. -/
theorem receive_longest (h : m.Reachable) :
    m.patterns.Nodup ∧
    (∀ call : Call,
      (∃ pattern handler, (pattern, handler) ∈ m.handlers ∧ pattern <+: call.args ∧
        (∀ other ∈ m.patterns, other <+: call.args → other ≠ pattern → other.length < pattern.length) ∧
        m.receive call = (m.record call).obey pattern handler) ∨
      (∀ pattern ∈ m.patterns, ¬ pattern <+: call.args) ∧ m.receive call = (m.record call, .nothing)) ∧
    ∀ xs ys : List (Registration α), xs.Perm ys → (xs.map Registration.pattern).Nodup →
      ∀ args, (xs.foldl enroll m).dispatch args = (ys.foldl enroll m).dispatch args := by
  refine ⟨h.nodup, fun call => ?_, fun xs ys hPerm hNodup => dispatch_congr (lookup_enrollAll_perm m hPerm hNodup)⟩
  rcases m.serves_or_none call.args with ⟨pattern, handler, hServes⟩ | hNone
  · refine .inl ⟨pattern, handler, (lookup_eq_some_iff_mem h.nodup).mp hServes.registered, hServes.begins, ?_,
      receive_of_serves hServes⟩
    intro other hOther hBegins hNe
    refine lt_of_le_of_ne (hServes.longest other hOther hBegins) fun hLength => hNe ?_
    exact (List.prefix_of_prefix_length_le hBegins hServes.begins hLength.le).eq_of_length hLength
  · exact .inr ⟨hNone, receive_of_none hNone⟩

/-- A queue for a command, one for the command with an argument, and a handler for all others. -/
def layered : Mock Unit :=
  ((Mock.empty.enqueue ⟨[1], none⟩ ["uname"]).enqueue ⟨[2], none⟩ ["uname", "-s"]).register (.other ()) []

theorem layered_receive_longest :
    layered.Reachable ∧ layered.patterns.Nodup ∧
    (layered.receive ⟨["uname", "-s", "-m"], [], none⟩).2 = .response ⟨[2], none⟩ (some ["uname", "-s"]) ∧
    (layered.receive ⟨["uname"], [], none⟩).2 = .response ⟨[1], none⟩ (some ["uname"]) ∧
    (layered.receive ⟨["ls"], [], none⟩).2 = .handler () ∧
    ∀ args, ([.handle () ["ls"], .queue ⟨[3], none⟩ ["ls", "-l"]].foldl enroll layered).dispatch args =
      ([.queue ⟨[3], none⟩ ["ls", "-l"], .handle () ["ls"]].foldl enroll layered).dispatch args := by
  have hReachable : layered.Reachable := ((Reachable.empty.enqueue _ _).enqueue _ _).register _ _
  obtain ⟨hNodup, -, hOrder⟩ := receive_longest hReachable
  exact ⟨hReachable, hNodup, rfl, rfl, rfl, hOrder _ _ (List.Perm.swap _ _ _) (by decide)⟩

end Order

end Pipework.Mock
