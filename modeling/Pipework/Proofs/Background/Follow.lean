import Pipework.Proofs.Background.Undisturbed

/-!
# Readers take part in their histories

A reader that is read and closed by one consumer does what readers in use do: a read of some bytes, or of all, is a
number of reads each of which takes what it can get, with the steps of the script in between, and closing the reader
is a call that cancels the script and waits until it has left.
-/

namespace Pipework

/-- Of what a script offers, `taken` bytes may have been taken; all of something endless never is. -/
def Fits : Background → (taken : Nat) → Prop
  | .wait (.offer data false) _ _, taken => taken ≤ data.length
  | .wait (.offer data true) _ _, taken => taken = 0 ∨ taken < data.length
  | _, taken => taken = 0

theorem Fits.zero (r : Background) : Fits r 0 := by
  cases r with
  | done result state => rfl
  | wait why state resume =>
    cases why with
    | offer data endless => cases endless <;> simp [Fits]
    | _ => rfl

theorem length_cyclic {data : Bytes} (h : data ≠ []) (taken n : Nat) : (cyclic data taken n).length = n := by
  have hPositive : 1 ≤ data.length := List.length_pos_iff.mpr h
  have hLong : (taken + n + 1) * 1 ≤ (taken + n + 1) * data.length := Nat.mul_le_mul_left _ hPositive
  have hLength : (List.replicate (taken + n + 1) data).flatten.length = (taken + n + 1) * data.length := by simp
  rw [cyclic, List.length_take, List.length_drop, hLength]
  omega

namespace Reader

variable {start : World → Background} {w : World} {events : List Event} {s u v : Use}

@[simp] theorem given_append (events more : List Event) : given (events ++ more) = given events ++ given more := by
  simp [given]

/-- The script of the reader has been started, and nobody has closed the reader. -/
structure Use.IsOpen (u : Use) : Prop where
  started : u.started = true
  closed : u.closed = false
  canceled : u.canceled = false
  gone : u.gone = false

/-- A read of at least `n` bytes has begun and is not over. -/
def Reading (n : Nat) (events : List Event) : Prop :=
  ∃ id want entry, n ≤ want ∧ entry ≠ .refused ∧ doneBy Event.call? id events = [.enters id want entry]

theorem Reading.of_script {n : Nat} {more : List Event} (h : Reading n events)
    (hScript : ∀ e ∈ more, e.isOfScript = true) : Reading n (events ++ more) := by
  obtain ⟨id, want, entry, hWant, hEntry, hCall⟩ := h
  refine ⟨id, want, entry, hWant, hEntry, ?_⟩
  rw [doneBy_append, hCall, doneBy_of_script hScript]
  rfl

theorem given_of_script (h : ∀ e ∈ events, e.isOfScript = true) : given events = [] := by
  rw [given, List.flatMap_eq_nil_iff]
  intro e he
  have hScript := h e he
  cases e with
  | gives id data ending => cases hScript
  | _ => rfl

theorem begins (hNew : s.IsNew start w) (h : History Step s events u) (hOpen : u.IsOpen) (n : Nat) :
    ∃ id, History Step s (events ++ [.enters id n .joins]) u ∧ Reading n (events ++ [.enters id n .joins]) := by
  obtain ⟨id, hCall⟩ := exists_unmade Event.call? events
  have hIdle : u.progress.isIdle = false := by
    have hStarted := (known hNew h).sound.started
    rw [hOpen.started] at hStarted
    simpa using hStarted
  have hEntry : u.entry = .joins := by simp [Use.entry, hOpen.closed, hOpen.started]
  have hEntered : u.entered = u := by
    have hBegin : u.progress.begin = u.progress := by
      cases hProgress : u.progress with
      | idle start =>
        rw [hProgress] at hIdle
        cases hIdle
      | _ => rfl
    rw [Use.entered, if_neg (by simp [hOpen.closed]), hBegin, ← hOpen.started]
  have hEnter : Step events u (.enters id n u.entry) u.entered := .enter hCall
  rw [hEntry, hEntered] at hEnter
  exact ⟨id, h.snoc hEnter, id, n, .joins, Nat.le_refl n, by simp, doneBy_concat hCall rfl⟩

theorem takes (h : History Step s events u) (hOpen : u.IsOpen) {data : Bytes} {endless : Bool}
    {resume : Signal → World → Background} {taken n : Nat} (hReading : Reading n events)
    (hOffer : u.progress = .waiting (.offer data endless) resume taken) (hLeft : taken + n ≤ data.length)
    (hSome : n = 0 → taken = data.length) :
    ∃ id, History Step s (events ++ [.gives id ((data.drop taken).take n) .full])
      { u with progress := .offering data endless resume (taken + n) } := by
  obtain ⟨id, want, entry, hWant, hEntry, hCall⟩ := hReading
  exact ⟨id, h.snoc (.take hCall hEntry hOffer hOpen.gone hWant hLeft fun hZero => .inr (hSome hZero))⟩

theorem ends (h : History Step s events u) {result : Except Fault String} (hEnded : u.progress = .ended result) :
    History Step s (events ++ [.finishes result, .seals, .leaves])
      { u with progress := .done result, finished := true, ending := some (faultOf result) } := by
  simpa using ((h.snoc (.finish hEnded)).snoc (.conclude rfl)).snoc (.leave rfl)

theorem settles (h : History Step s events u) (hOpen : u.IsOpen) {next : World → Background}
    (hDue : u.progress = .due next) :
    ∃ more v, History Step s (events ++ more) v ∧ v.IsOpen ∧ v.progress = .settled (next u.world) 0 ∧
      v.world = (next u.world).state ∧ ∀ e ∈ more, e.isOfScript = true := by
  have hMoves : Progress.Moves u.canceled u.gone (u.progress, u.world) (next u.world).offered
      (.ofRun (next u.world), (next u.world).state) := hDue ▸ .go
  have hGo := h.snoc (.run hMoves)
  cases hRun : next u.world with
  | wait why state resume =>
    rw [hRun] at hGo
    exact ⟨_, _, hGo, ⟨hOpen.started, hOpen.closed, hOpen.canceled, hOpen.gone⟩, rfl, rfl, by simp [Event.isOfScript]⟩
  | done result state =>
    rw [hRun] at hGo
    have hLeave := ends hGo rfl
    rw [List.append_assoc] at hLeave
    exact ⟨_, _, hLeave, ⟨hOpen.started, hOpen.closed, hOpen.canceled, hOpen.gone⟩, rfl, rfl,
      by simp [Event.isOfScript]⟩

/-- Reads that give `data` lead from `u` on to a script that has come to `run`, of whose offer `taken` bytes have been
taken. -/
def Leads (s : Use) (events : List Event) (data : Bytes) (run : Background) (taken : Nat) (w : World)
    (reading : List Event → Prop) : Prop :=
  ∃ more v, History Step s (events ++ more) v ∧ v.IsOpen ∧ v.progress = .settled run taken ∧ v.world = w ∧
    given more = data ∧ reading (events ++ more)

theorem Leads.after {events more : List Event} {data first : Bytes} {run : Background} {taken : Nat} {w : World}
    {reading : List Event → Prop} (h : Leads s (events ++ more) data run taken w reading)
    (hGiven : given more = first) :
    Leads s events (first ++ data) run taken w reading := by
  obtain ⟨later, v, hHistory, hOpen, hProgress, hWorld, hData, hReading⟩ := h
  rw [List.append_assoc] at hHistory hReading
  exact ⟨more ++ later, v, hHistory, hOpen, hProgress, hWorld, by rw [given_append, hGiven, hData], hReading⟩

theorem takes_all (h : History Step s events u) (hOpen : u.IsOpen) {data : Bytes} {endless : Bool}
    {resume : Signal → World → Background} {taken : Nat} (hReading : Reading (data.length - taken) events)
    (hOffer : u.progress = .waiting (.offer data endless) resume taken) (hTaken : taken ≤ data.length) :
    ∃ more v, History Step s (events ++ more) v ∧ v.IsOpen ∧
      v.progress = .settled (afterOffer data endless resume u.world) 0 ∧
      v.world = (afterOffer data endless resume u.world).state ∧ given more = data.drop taken := by
  obtain ⟨id, hTake⟩ := takes h hOpen hReading hOffer (by omega) (by omega)
  have hDue : Progress.offering data endless resume (taken + (data.length - taken)) =
      .due (afterOffer data endless resume) := by
    rw [Progress.offering, if_neg (by omega)]
  obtain ⟨more, v, hSettle, hOpen', hProgress, hWorld, hScript⟩ :=
    settles hTake ⟨hOpen.started, hOpen.closed, hOpen.canceled, hOpen.gone⟩ hDue
  rw [List.append_assoc] at hSettle
  refine ⟨_, v, hSettle, hOpen', hProgress, hWorld, ?_⟩
  rw [given_append, given_of_script hScript, List.append_nil, ← List.length_drop, List.take_length]
  simp [given, Event.given]

theorem endless_follows (hNew : s.IsNew start w) {data : Bytes} (state : World)
    {resume : Signal → World → Background} {n : Nat} (hn : n ≠ 0) {taken : Nat} (hTaken : taken < data.length)
    (h : History Step s events u) (hOpen : u.IsOpen) (hReading : Reading n events)
    (hOffer : u.progress = .waiting (.offer data true) resume taken) :
    Leads s events (cyclic data taken n) (.wait (.offer data true) state resume) ((taken + n) % data.length) u.world
      fun _ => True := by
  -- A read takes no more than what is left of one offer, so `n` bytes may need many.
  induction n using Nat.strong_induction_on generalizing events u taken with
  | h n ih =>
    by_cases hLess : taken + n < data.length
    · obtain ⟨id, hTake⟩ := takes h hOpen hReading hOffer (Nat.le_of_lt hLess) (by omega)
      rw [Progress.offering, if_pos hLess] at hTake
      refine ⟨_, _, hTake, ⟨hOpen.started, hOpen.closed, hOpen.canceled, hOpen.gone⟩, ?_, rfl, ?_, trivial⟩
      · rw [Nat.mod_eq_of_lt hLess]
        rfl
      · rw [cyclic_eq (Nat.le_of_lt hTaken), show n - (data.length - taken) = 0 by omega]
        simp [given, Event.given, cyclic]
    · obtain ⟨id, want, entry, hWant, hEntry, hCall⟩ := hReading
      obtain ⟨more, v, hAll, hOpen', hProgress, hWorld, hGiven⟩ := takes_all h hOpen
        ⟨id, want, entry, by omega, hEntry, hCall⟩ hOffer (Nat.le_of_lt hTaken)
      rw [cyclic_eq (Nat.le_of_lt hTaken), List.take_of_length_le (by rw [List.length_drop]; omega)]
      by_cases hSame : n = data.length - taken
      · refine Leads.after ⟨[], v, by simpa using hAll, hOpen', ?_, hWorld, ?_, trivial⟩ hGiven
        · rw [hProgress, show taken + n = data.length by omega, Nat.mod_self]
          rfl
        · simp [hSame, given, cyclic]
      · obtain ⟨id', hEnter, hReading'⟩ := begins hNew hAll hOpen' (n - (data.length - taken))
        have hMore := ih (n - (data.length - taken)) (by omega) (by omega) (by omega) hEnter hOpen' hReading' hProgress
        have hMod : (taken + n) % data.length = (0 + (n - (data.length - taken))) % data.length := by
          rw [← Nat.add_mod_right (0 + (n - (data.length - taken)))]
          congr 1
          omega
        rw [List.append_assoc, show v.world = u.world from hWorld] at hMore
        rw [hMod]
        refine hMore.after ?_
        rw [given_append, hGiven]
        simp [given, Event.given]

theorem Reading.mono {m n : Nat} (h : Reading n events) (hLess : m ≤ n) : Reading m events := by
  obtain ⟨id, want, entry, hWant, hRest⟩ := h
  exact ⟨id, want, entry, hLess.trans hWant, hRest⟩

theorem Leads.mono {data : Bytes} {run : Background} {taken : Nat} {w : World} {reading reading' : List Event → Prop}
    (h : Leads s events data run taken w reading) (hMore : ∀ all, reading all → reading' all) :
    Leads s events data run taken w reading' := by
  obtain ⟨more, v, hHistory, hOpen, hProgress, hWorld, hData, hReading⟩ := h
  exact ⟨more, v, hHistory, hOpen, hProgress, hWorld, hData, hMore _ hReading⟩

/-- A number of reads that do what `p` says when `want` bytes are wanted. If they could not get as many, the last of
them is not over. -/
def Follows (s : Use) (events : List Event) (want : Option Nat) (p : Pulled) : Prop :=
  Leads s events p.data p.run p.taken p.world (fun all => want = some p.data.length ∨ Reading 0 all) ∧
    Fits p.run p.taken

theorem Follows.stay (h : History Step s events u) (hOpen : u.IsOpen) {run : Background} {taken : Nat}
    (hProgress : u.progress = .settled run taken) (hFits : Fits run taken) {n : Nat} (hReading : Reading n events)
    (want : Option Nat) : Follows s events want ⟨[], run, taken, u.world⟩ := by
  have hStill : Reading 0 (events ++ []) := by simpa using hReading.mono (Nat.zero_le n)
  exact ⟨⟨[], u, by simpa using h, hOpen, hProgress, rfl, rfl, .inr hStill⟩, hFits⟩

theorem wait_follows (h : History Step s events u) (hOpen : u.IsOpen) {why : Wait} (hOffer : why.isOffer = false)
    (hNever : why ≠ .never) {resume : Signal → World → Background} {taken : Nat}
    (hProgress : u.progress = .waiting why resume taken) {want : Option Nat} {p : Pulled}
    (hReading : Reading p.data.length events)
    (hNext : ∀ {events v}, History Step s events v → v.IsOpen → v.progress = .settled (resume .ready u.world) 0 →
      v.world = (resume .ready u.world).state → Reading p.data.length events → Follows s events want p) :
    Follows s events want p := by
  have hMoves : Progress.Moves u.canceled u.gone (u.progress, u.world) [] (.due (resume .ready), u.world) :=
    hProgress ▸ .ready hOffer hNever
  obtain ⟨more, v, hSettle, hOpen', hProgress', hWorld, hScript⟩ := settles (h.snoc (.run hMoves))
    ⟨hOpen.started, hOpen.closed, hOpen.canceled, hOpen.gone⟩ rfl
  have hScript' : ∀ e ∈ .runs [] :: more, e.isOfScript = true := by simpa [Event.isOfScript] using hScript
  rw [List.append_assoc, List.singleton_append] at hSettle
  obtain ⟨hLeads, hFits⟩ := hNext hSettle hOpen' hProgress' hWorld (hReading.of_script hScript')
  exact ⟨hLeads.after (given_of_script hScript'), hFits⟩

/-- A read takes all that is left of an offer, and others go on with what the script does then. -/
theorem offer_follows (hNew : s.IsNew start w) (h : History Step s events u) (hOpen : u.IsOpen) {data : Bytes}
    {resume : Signal → World → Background} {taken : Nat}
    (hOffer : u.progress = .waiting (.offer data false) resume taken) (hTaken : taken ≤ data.length)
    {want : Option Nat} {p : Pulled}
    (hReading : Reading (data.drop taken ++ p.data).length events)
    (hNext : ∀ {events v}, History Step s events v → v.IsOpen → v.progress = .settled (resume .ready u.world) 0 →
      v.world = (resume .ready u.world).state → Reading p.data.length events → Follows s events want p) :
    Follows s events (want.map ((data.drop taken).length + ·)) { p with data := data.drop taken ++ p.data } := by
  rw [List.length_append] at hReading
  obtain ⟨more, v, hTake, hOpen', hProgress, hWorld, hGiven⟩ :=
    takes_all h hOpen (hReading.mono (by rw [List.length_drop]; omega)) hOffer hTaken
  obtain ⟨id, hEnter, hReading'⟩ := begins hNew hTake hOpen' p.data.length
  obtain ⟨hLeads, hFits⟩ := hNext hEnter hOpen' hProgress hWorld hReading'
  rw [List.append_assoc] at hLeads
  have hFirst : given (more ++ [.enters id p.data.length .joins]) = data.drop taken := by
    rw [given_append, hGiven]
    simp [given, Event.given]
  refine ⟨(hLeads.after hFirst).mono fun all hEnough => ?_, hFits⟩
  rcases hEnough with hEnough | hStill
  · exact .inl (by simp [hEnough])
  · exact .inr hStill

theorem part_follows (hNew : s.IsNew start w) (h : History Step s events u) (hOpen : u.IsOpen) {data : Bytes}
    {state : World} {resume : Signal → World → Background} {taken n : Nat}
    (hOffer : u.progress = .waiting (.offer data false) resume taken) (hTaken : taken ≤ data.length) (hn : n ≠ 0)
    (hReading : Reading (pull (.wait (.offer data false) state resume) (some n) taken u.world).data.length events)
    (hNext : (data.drop taken).length < n → ∀ {events v}, History Step s events v → v.IsOpen →
      v.progress = .settled (resume .ready u.world) 0 → v.world = (resume .ready u.world).state →
      Reading (pull (resume .ready u.world) (some (n - (data.drop taken).length)) 0
        (resume .ready u.world).state).data.length events →
      Follows s events (some (n - (data.drop taken).length))
        (pull (resume .ready u.world) (some (n - (data.drop taken).length)) 0 (resume .ready u.world).state)) :
    Follows s events (some n) (pull (.wait (.offer data false) state resume) (some n) taken u.world) := by
  rw [pull] at hReading ⊢
  dsimp only at hReading ⊢
  by_cases hPart : n < (data.drop taken).length
  · rw [if_pos hPart] at hReading ⊢
    have hLess : taken + n < data.length := by
      rw [List.length_drop] at hPart
      omega
    have hLength : ((data.drop taken).take n).length = n := List.length_take_of_le (Nat.le_of_lt hPart)
    rw [hLength] at hReading
    obtain ⟨id, hTake⟩ := takes h hOpen hReading hOffer (Nat.le_of_lt hLess) fun hZero => absurd hZero hn
    rw [Progress.offering, if_pos hLess] at hTake
    refine ⟨⟨_, _, hTake, ⟨hOpen.started, hOpen.closed, hOpen.canceled, hOpen.gone⟩, rfl, rfl, ?_, .inl ?_⟩,
      Nat.le_of_lt hLess⟩
    · simp [given, Event.given]
    · rw [hLength]
  · rw [if_neg hPart] at hReading ⊢
    by_cases hSame : n = (data.drop taken).length
    · rw [if_pos hSame] at hReading ⊢
      obtain ⟨more, v, hTake, hOpen', hProgress, hWorld, hGiven⟩ :=
        takes_all h hOpen (hReading.mono (by simp)) hOffer hTaken
      exact ⟨⟨more, v, hTake, hOpen', hProgress, hWorld, by simpa using hGiven, .inl (by simp [hSame])⟩, .zero _⟩
    · rw [if_neg hSame] at hReading ⊢
      have hRest := offer_follows hNew h hOpen hOffer hTaken hReading (hNext (by omega))
      rwa [Option.map_some, Nat.add_sub_cancel' (Nat.le_of_not_lt hPart)] at hRest

theorem pull_follows (hNew : s.IsNew start w) {r : Background} {want : Option Nat} {taken : Nat}
    (h : History Step s events u) (hOpen : u.IsOpen) (hProgress : u.progress = .settled r taken)
    (hFits : Fits r taken) (hWant : want ≠ some 0) (hReading : Reading (pull r want taken u.world).data.length events)
    (hVoid : ∀ state resume, (pull r want taken u.world).run ≠ .wait (.offer [] true) state resume) :
    Follows s events want (pull r want taken u.world) := by
  induction r generalizing events u want taken with
  | done result state =>
    obtain rfl : taken = 0 := hFits
    exact .stay h hOpen hProgress rfl hReading want
  | wait why state resume ih =>
    -- Where the script goes on, it goes on from `resume .ready`, to which the induction applies.
    have hNext {want' : Option Nat} (hWant' : want' ≠ some 0)
        (hVoid' : ∀ state' resume', (pull (resume .ready u.world) want' 0 (resume .ready u.world).state).run ≠
          .wait (.offer [] true) state' resume')
        {events' : List Event} {v : Use} (h' : History Step s events' v) (hOpen' : v.IsOpen)
        (hProgress' : v.progress = .settled (resume .ready u.world) 0)
        (hWorld : v.world = (resume .ready u.world).state)
        (hReading' : Reading (pull (resume .ready u.world) want' 0 (resume .ready u.world).state).data.length events') :
        Follows s events' want' (pull (resume .ready u.world) want' 0 (resume .ready u.world).state) := by
      rw [← hWorld] at hVoid' hReading' ⊢
      exact ih .ready u.world h' hOpen' hProgress' (.zero _) hWant' hReading' hVoid'
    by_cases hNever : why = .never
    · subst hNever
      obtain rfl : taken = 0 := hFits
      exact .stay h hOpen hProgress rfl hReading want
    cases hOffer : why.isOffer with
    | false =>
      rw [pull_wait hOffer hNever] at hReading hVoid ⊢
      exact wait_follows h hOpen hOffer hNever hProgress hReading (hNext hWant hVoid)
    | true =>
      cases why with
      | offer data endless =>
        cases endless with
        | true =>
          have hData : data ≠ [] := by
            rintro rfl
            exact hVoid state resume rfl
          have hLess : taken < data.length := by
            rcases hFits with rfl | hLess
            · exact List.length_pos_iff.mpr hData
            · exact hLess
          cases want with
          | none =>
            have hSame : (taken + 0) % data.length = taken := Nat.mod_eq_of_lt hLess
            have hPull : pull (.wait (.offer data true) state resume) none taken u.world =
                ⟨[], .wait (.offer data true) state resume, taken, u.world⟩ := by
              rw [pull, Option.getD_none, hSame]
              simp [cyclic]
            rw [hPull]
            exact .stay h hOpen hProgress hFits hReading none
          | some n =>
            have hLength : (pull (.wait (.offer data true) state resume) (some n) taken u.world).data.length = n :=
              length_cyclic hData taken n
            rw [hLength] at hReading
            have hLeads := endless_follows hNew state (by simpa using hWant) hLess h hOpen hReading hProgress
            exact ⟨hLeads.mono fun _ _ => .inl (by rw [hLength]), .inr (Nat.mod_lt _ (Nat.zero_lt_of_lt hLess))⟩
        | false =>
          cases want with
          | none => exact offer_follows hNew h hOpen hProgress hFits hReading (hNext hWant hVoid)
          | some n =>
            have hn : n ≠ 0 := by simpa using hWant
            refine part_follows hNew h hOpen hProgress hFits hn hReading fun hMore => hNext ?_ ?_
            · intro hZero
              have hNone := Option.some.inj hZero
              omega
            · intro state' resume' hRun
              apply hVoid state' resume'
              rw [pull]
              dsimp only
              rw [if_neg (by omega), if_neg (by omega)]
              exact hRun
      | _ => cases hOffer

/-- A reader in use is at the same point as the reader `r` in the world `w`. -/
def Use.Is (u : Use) (w : World) : Reader → Prop
  | .idle start =>
    u.progress = .idle start ∧ u.world = w ∧ u.closed = false ∧ u.canceled = false ∧ u.gone = false
  | .active run taken => u.progress = .settled run taken ∧ u.world = w ∧ u.IsOpen ∧ Fits run taken
  | .closed => u.closed = true ∧ u.world = w
  | .failed _ => False

/-- A read that is under way gives what there is, and at the end of the output it says so. -/
theorem reading_follows (hNew : s.IsNew start w) {run : Background} {want : Option Nat} {taken : Nat} {w' : World}
    (h : History Step s events u) (hIs : u.Is w' (.active run taken)) (hWant : want ≠ some 0)
    (hReading : Reading (pull run want taken w').data.length events)
    (hVoid : ∀ state resume, (pull run want taken w').run ≠ .wait (.offer [] true) state resume) :
    ∃ more v, History Step s (events ++ more) v ∧
      v.Is (pull run want taken w').world (.active (pull run want taken w').run (pull run want taken w').taken) ∧
      given more = (pull run want taken w').data ∧
      (readEnd want (pull run want taken w') ≠ .full →
        ∃ id, .gives id [] (readEnd want (pull run want taken w')) ∈ more) := by
  obtain ⟨hProgress, rfl, hOpen, hFits⟩ := hIs
  obtain ⟨⟨more, v, hHistory, hOpen', hProgress', hWorld, hGiven, hReading'⟩, hFits'⟩ :=
    pull_follows hNew h hOpen hProgress hFits hWant hReading hVoid
  by_cases hFull : readEnd want (pull run want taken u.world) = .full
  · exact ⟨more, v, hHistory, ⟨hProgress', hWorld, hOpen', hFits'⟩, hGiven, fun hEnd => absurd hFull hEnd⟩
  · obtain ⟨result, state, hRun, hEnding⟩ := readEnd_ne_full hFull
    obtain hEnough | ⟨id, want', entry, -, hEntry, hCall⟩ := hReading'
    · rw [readEnd, if_pos hEnough] at hFull
      exact absurd rfl hFull
    · have hEnd : v.ending = some (faultOf result) := by
        rw [(known hNew hHistory).sound.ending, hProgress', hRun]
        rfl
      have hGives := hHistory.snoc (.atEnd hCall hEntry hOpen'.gone hEnd)
      rw [List.append_assoc, ← hEnding] at hGives
      refine ⟨_, v, hGives, ⟨hProgress', hWorld, hOpen', hFits'⟩, ?_, fun _ => ⟨id, by simp⟩⟩
      rw [given_append, hGiven]
      simp [given, Event.given]

theorem starts_follows (hNew : s.IsNew start w) {start' : World → Background} {w' : World}
    (h : History Step s events u) (hIs : u.Is w' (.idle start')) (n : Nat) :
    ∃ more v, History Step s (events ++ more) v ∧ v.Is (start' w').state (.active (start' w') 0) ∧ given more = [] ∧
      Reading n (events ++ more) := by
  obtain ⟨hProgress, rfl, hClosed, hCanceled, hGone⟩ := hIs
  obtain ⟨id, hCall⟩ := exists_unmade Event.call? events
  have hStarted : u.started = false := by
    rw [(known hNew h).sound.started, hProgress]
    rfl
  have hEntry : u.entry = .starts := by simp [Use.entry, hClosed, hStarted]
  have hEntered : u.entered = { u with started := true, progress := .due start' } := by
    rw [Use.entered, if_neg (by simp [hClosed]), hProgress]
    rfl
  have hEnter : Step events u (.enters id n u.entry) u.entered := .enter hCall
  rw [hEntry, hEntered] at hEnter
  have hReading : Reading n (events ++ [Event.enters id n .starts]) :=
    ⟨id, n, .starts, Nat.le_refl n, by simp, doneBy_concat hCall rfl⟩
  obtain ⟨more, v, hSettle, hOpen, hProgress', hWorld, hScript⟩ :=
    settles (h.snoc hEnter) ⟨rfl, hClosed, hCanceled, hGone⟩ rfl
  have hReading' := hReading.of_script hScript
  rw [List.append_assoc] at hSettle hReading'
  refine ⟨_, v, hSettle, ⟨hProgress', hWorld, hOpen, .zero _⟩, ?_, hReading'⟩
  rw [given_append, given_of_script hScript]
  simp [given, Event.given]

/-- Reading a reader is a number of reads of it in use. Nothing is said of a script that is ever ready to write
nothing. -/
theorem read_follows (hNew : s.IsNew start w) {r : Reader} (want : Option Nat) {w' : World}
    (h : History Step s events u) (hIs : u.Is w' r)
    (hVoid : ∀ state resume taken, (r.read want w').2.1 ≠ .active (.wait (.offer [] true) state resume) taken) :
    ∃ more v, History Step s (events ++ more) v ∧ v.Is (r.read want w').2.2 (r.read want w').2.1 ∧
      given more = (r.read want w').1.1 ∧
      ((r.read want w').1.2 ≠ .full → ∃ id, .gives id [] (r.read want w').1.2 ∈ more) := by
  by_cases hWant : want = some 0
  · -- Who wants nothing makes no read.
    have hRead : r.read want w' = (([], .full), r, w') := by rw [Reader.read, if_pos hWant]
    rw [hRead]
    exact ⟨[], u, by simpa using h, hIs, rfl, fun hEnd => absurd rfl hEnd⟩
  cases r with
  | idle start' =>
    rw [read_idle hWant, read_active hWant] at hVoid ⊢
    obtain ⟨more, v, hStarts, hIs', hNothing, hReading⟩ := starts_follows hNew h hIs
      (pull (start' w') want 0 (start' w').state).data.length
    obtain ⟨later, v', hHistory, hIs'', hGiven, hEnd⟩ := reading_follows hNew hStarts hIs' hWant hReading
      fun state resume hRun => hVoid state resume _ (by rw [hRun])
    rw [List.append_assoc] at hHistory
    refine ⟨more ++ later, v', hHistory, hIs'', by rw [given_append, hNothing, hGiven]; rfl, fun hEnding => ?_⟩
    obtain ⟨id, hMem⟩ := hEnd hEnding
    exact ⟨id, List.mem_append_right more hMem⟩
  | active run taken =>
    rw [read_active hWant] at hVoid ⊢
    obtain ⟨id, hBegin, hReading⟩ := begins hNew h hIs.2.2.1 (pull run want taken w').data.length
    obtain ⟨later, v', hHistory, hIs', hGiven, hEnd⟩ := reading_follows hNew hBegin hIs hWant hReading
      fun state resume hRun => hVoid state resume _ (by rw [hRun])
    rw [List.append_assoc] at hHistory
    refine ⟨_, v', hHistory, hIs', ?_, fun hEnding => ?_⟩
    · rw [given_append, hGiven]
      simp [given, Event.given]
    · obtain ⟨id', hMem⟩ := hEnd hEnding
      exact ⟨id', List.mem_append_right _ hMem⟩
  | closed =>
    have hRead : Reader.closed.read want w' = (([], .fault .readerClosed), .closed, w') := by
      rw [Reader.read, if_neg hWant]
      rfl
    obtain ⟨id, hCall⟩ := exists_unmade Event.call? events
    have hEnter : Step events u (.enters id 1 u.entry) u.entered := .enter hCall
    rw [Use.entry, Use.entered, if_pos hIs.1, if_pos hIs.1] at hEnter
    have hRefuse := (h.snoc hEnter).snoc (.refuse (doneBy_concat hCall rfl))
    rw [List.append_assoc] at hRefuse
    rw [hRead]
    exact ⟨_, u, hRefuse, hIs, rfl, fun _ => ⟨id, by simp⟩⟩
  | failed fault => exact hIs.elim

/-- A script that has been canceled and has no consumer any more comes to its end, unless it has left before. -/
theorem stops (h : History Step s events u) (hCanceled : u.canceled = true) (hGone : u.gone = true) {r : Background}
    {taken : Nat} (hProgress : u.progress = .settled r taken) :
    ∃ more v, History Step s (events ++ more) v ∧ v.progress = .done (stopRun r taken u.world).1 ∧
      v.world = (stopRun r taken u.world).2 ∧ v.closed = u.closed ∧ ∀ e ∈ more, e.isOfScript = true := by
  cases r with
  | done result state => exact ⟨[], u, by simpa using h, hProgress, rfl, rfl, by simp⟩
  | wait why state resume =>
    obtain ⟨written, hGoes⟩ := Progress.goes_stop why state resume taken u.world
    have hThen : History Step s events { u with progress := .waiting why resume taken } := by
      rw [← show u.progress = .waiting why resume taken from hProgress]
      exact h
    have hStopped := hGoes.history .runs (fun x => { u with progress := x.1, world := x.2 })
      (fun hMoves => .run (by simpa [hCanceled, hGone] using hMoves)) hThen
    have hLeave := ends hStopped rfl
    rw [List.append_assoc] at hLeave
    refine ⟨_, _, hLeave, rfl, rfl, rfl, ?_⟩
    intro e he
    rcases List.mem_append.mp he with he | he
    · obtain ⟨data, -, rfl⟩ := List.mem_map.mp he
      rfl
    · simp only [List.mem_cons, List.not_mem_nil, or_false] at he
      rcases he with rfl | rfl | rfl <;> rfl

theorem close_follows (hNew : s.IsNew start w) {r : Reader} {w' : World} (h : History Step s events u)
    (hIs : u.Is w' r) :
    ∃ id more v, History Step s (events ++ more) v ∧ v.Is (r.close w').2.2 (r.close w').2.1 ∧
      .closes id (r.close w').1 ∈ more := by
  have hKnown := known hNew h
  obtain ⟨id, hCall⟩ := exists_unmade Event.call? events
  cases r with
  | idle start' =>
    obtain ⟨hProgress, hWorld, hClosed, -⟩ := hIs
    have hFound : u.found = some false := by
      rw [Use.found, hClosed, hKnown.sound.started, hProgress]
      rfl
    have hShut := h.snoc (.shut hCall)
    rw [hFound] at hShut
    have hShutBy := doneBy_concat hCall (e := .shuts id (some false)) rfl
    have hLook := hShut.snoc (.look hShutBy)
    have hLookBy := doneBy_concat hShutBy (e := .looks id u.finished) rfl
    have hCancel := hLook.snoc (.cancel hLookBy)
    have hClose := hCancel.snoc (.unused (doneBy_concat hLookBy rfl))
    simp only [List.append_assoc] at hClose
    exact ⟨id, _, _, hClose, ⟨rfl, hWorld⟩, by simp [Reader.close]⟩
  | active run taken =>
    obtain ⟨hProgress, rfl, hOpen, -⟩ := hIs
    have hFound : u.found = some true := by simp [Use.found, hOpen.closed, hOpen.started]
    have hFinished : u.finished = run.isDone := by
      rw [hKnown.sound.finished, hProgress]
      cases run <;> rfl
    obtain ⟨hDisconnects, hOwn⟩ := disconnects h hCall hFound
    rw [hFinished] at hDisconnects hOwn
    obtain ⟨more, v, hStops, hDone, hWorld, hClosed, hScript⟩ := stops hDisconnects rfl rfl hProgress
    have hStill : doneBy Event.call? id (events ++ disconnecting id run.isDone ++ more) =
        disconnecting id run.isDone := by
      rw [doneBy_append, hOwn, doneBy_of_script hScript, List.append_nil]
    have hClose := hStops.snoc (.close hStill hDone)
    simp only [List.append_assoc] at hClose
    exact ⟨id, _, v, hClose, ⟨hClosed, hWorld⟩, by simp [Reader.close]⟩
  | closed =>
    have hFound : u.found = none := by simp [Use.found, hIs.1]
    have hShut := h.snoc (.shut hCall)
    rw [hFound] at hShut
    have hClose := hShut.snoc (.again (doneBy_concat hCall rfl))
    simp only [List.append_assoc] at hClose
    exact ⟨id, _, _, hClose, ⟨rfl, hIs.2⟩, by simp [Reader.close]⟩
  | failed fault => exact hIs.elim

theorem fresh_is (start : World → Background) (w : World) : (Use.fresh start w).Is w (.idle start) :=
  ⟨rfl, rfl, rfl, rfl, rfl⟩

theorem begin_follows (start : World → Background) (w : World) :
    ∃ events u, History Step (.begun start w) events u ∧
      u.Is ((Reader.idle start).begin w).2 ((Reader.idle start).begin w).1 ∧ given events = [] := by
  obtain ⟨more, v, hSettle, hOpen, hProgress, hWorld, hScript⟩ :=
    settles (u := .begun start w) .nil ⟨rfl, rfl, rfl, rfl⟩ rfl
  exact ⟨more, v, by simpa using hSettle, ⟨hProgress, hWorld, hOpen, .zero _⟩, given_of_script hScript⟩

theorem read_of_drain {start : World → Background} {w w' : World} {data : Bytes} {result : Except Fault String}
    (h : (start w).drain = some (data, result, w')) :
    (Reader.idle start).read none w = ((data, .ofFault (faultOf result)), .active (.done result w') 0, w') := by
  rw [read_idle (by simp), read_active (by simp), pull_of_drain h]
  cases result <;> rfl

theorem drain_follows {start : World → Background} {w w' : World} {data : Bytes} {result : Except Fault String}
    (h : (start w).drain = some (data, result, w')) :
    ∃ events u, History Step (.fresh start w) events u ∧ u.Is w' (.active (.done result w') 0) ∧ given events = data ∧
      ∃ id, .gives id [] (.ofFault (faultOf result)) ∈ events := by
  have hRead := read_of_drain h
  obtain ⟨more, v, hHistory, hIs, hGiven, hEnd⟩ :=
    read_follows (.inl rfl) none .nil (fresh_is start w) (by simp [hRead])
  rw [hRead] at hIs hGiven hEnd
  refine ⟨more, v, by simpa using hHistory, hIs, hGiven, hEnd ?_⟩
  cases result <;> simp [ReadEnd.ofFault, faultOf]

def complaining : Script := ⟨[⟨⟨[Script.saying "b" ["no"]], false, "", 1⟩, []⟩]⟩

theorem complaining_history :
    ∃ events u result fault w', History Step (.fresh (complaining.execute [] ⟨[], some 0, false⟩ .stream) (.bench []))
        events u ∧
      u.Is w' (.active (.done result w') 0) ∧ faultOf result = some fault ∧ given events = utf8 "b\n" ∧
      ∃ id, .gives id [] (.fault fault) ∈ events := by
  have hData : (complaining.execute [] ⟨[], some 0, false⟩ .stream (.bench [])).drain.map Prod.fst =
      some (utf8 "b\n") := by
    decide +kernel
  have hFails :
      (faultOf (complaining.execute [] ⟨[], some 0, false⟩ .stream (.bench [])).complete.1).isSome = true := by
    decide +kernel
  obtain ⟨⟨data, result, w'⟩, hDrain, rfl⟩ := Option.map_eq_some_iff.mp hData
  obtain ⟨fault, hFault⟩ := Option.isSome_iff_exists.mp hFails
  rw [Run.complete_of_drain hDrain] at hFault
  obtain ⟨events, u, h, hIs, hGiven, id, hGives⟩ := drain_follows hDrain
  rw [hFault] at hGives
  exact ⟨events, u, result, fault, w', h, hIs, hFault, hGiven, id, hGives⟩

end Reader

end Pipework
