import Pipework.Proofs.Splice.Builtins
import Pipework.Proofs.Splice.Turn

/-!
# Launching the stages of a pipeline

If no builtin has to run in order, the stages of a pipeline are all launched before any of them runs, and launching
them depends on little: neither on what has been traced, nor on the pipes, nor on how many stages there are before.
-/

namespace Pipework

theorem World.cycle_read {w : World} {storage : Storage} (hHeld : w.isHeld storage = true) {path : String} {feed : Feed}
    (h : (w.serve storage (.read path)).1 = .ok feed) : feed.cycle = [] := by
  cases storage with
  | host => cases hHeld
  | shell =>
    have hMemory : w.inMemory = true := hHeld
    unfold serve serveMemory at h
    dsimp only at h
    rw [if_pos hMemory] at h
    cases hOpen : Memory.open? w.memory path with
    | error fault =>
      rw [hOpen] at h
      cases h
    | ok data =>
      rw [hOpen] at h
      cases h
      rfl

@[simp] theorem World.isHeld_serve (w : World) (storage s : Storage) (request : FileRequest) :
    (w.serve storage request).2.isHeld s = w.isHeld s := by
  obtain ⟨memory, tree, hServe⟩ := w.serve_eq storage request
  rw [hServe]
  cases s <;> rfl

/-- The input is a pipe only if there is a stage before, and that of the host only if there is none. It has an end if it
is a file in memory, that is if `held`. -/
structure Wiring.Plain (index : Nat) (held : Prop) (w : Wiring) : Prop where
  source : w.source = .pipe → index ≠ 0
  host : w.source = .host → index = 0
  feed : held → w.feed.cycle = []

namespace Wiring.Plain

variable {index : Nat} {held : Prop} {w w' : Wiring} {storage : Storage} {dir : String} {world world' : World}

theorem initial (index : Nat) (held : Prop) :
    (Wiring.initial (if index = 0 then Source.host else .pipe)).Plain index held where
  source h := by
    intro hIndex
    simp [Wiring.initial, hIndex] at h
  host h := by
    by_contra hIndex
    simp [Wiring.initial, hIndex] at h
  feed _ := rfl

theorem abandoned {r : Redirection} (hHeld : held → world.isHeld storage = true) :
    held → (w.redirect storage dir r world).2.isHeld storage = true := by
  intro h
  have hAloof : World.Aloof fun world => world.isHeld storage :=
    fun world s request => world.isHeld_serve s storage request
  exact (hAloof.redirect storage dir w r world).trans (hHeld h)

theorem point (h : w.Plain index held) (fd : Int) (sink : Sink) : (w.point fd sink).Plain index held := by
  unfold Wiring.point
  split <;> exact ⟨h.source, h.host, h.feed⟩

theorem redirect {r : Redirection} (h : w.Plain index held) (hHeld : held → world.isHeld storage = true)
    (hRedirect : w.redirect storage dir r world = (.ok w', world')) : w'.Plain index held := by
  unfold Wiring.redirect at hRedirect
  split at hRedirect
  · split at hRedirect
    · cases hRedirect
      exact ⟨by simp, by simp, fun _ => rfl⟩
    · cases hRedirect
      exact h
    · next path _ =>
      dsimp only at hRedirect
      cases hServe : world.serve storage (.read (Path.resolve dir path)) with
      | mk reply world'' =>
        rw [hServe] at hRedirect
        cases reply with
        | error fault => cases hRedirect
        | ok feed =>
          cases hRedirect
          exact ⟨by simp, by simp, fun hYes => World.cycle_read (hHeld hYes) (congrArg Prod.fst hServe)⟩
  · split at hRedirect
    · cases hRedirect
      exact h.point _ _
    · cases hRedirect
      exact h.point _ _
    · next path _ =>
      dsimp only at hRedirect
      cases hServe : world.serve storage
          (if r.append = true then .append (Path.resolve dir path) else .create (Path.resolve dir path)) with
      | mk reply world'' =>
        rw [hServe] at hRedirect
        cases reply with
        | error fault => cases hRedirect
        | ok feed =>
          cases hRedirect
          have hOpened : (w.opening ⟨storage, Path.resolve dir path, r.append, []⟩).1.Plain index held :=
            ⟨h.source, h.host, h.feed⟩
          exact hOpened.point _ _

theorem refresh (h : w.Plain index held) (hHeld : held → world.isHeld storage = true) :
    (w.refresh storage world).Plain index held := by
  unfold Wiring.refresh
  split
  · split
    · exact h
    · split
      · next feed hServe => exact ⟨h.source, h.host, fun hYes => World.cycle_read (hHeld hYes) hServe⟩
      · exact h
  · exact h

theorem redirectAll {rs : List Redirection} (h : w.Plain index held) (hHeld : held → world.isHeld storage = true)
    (hRedirect : w.redirectAll storage dir rs world = (.ok w', world')) : w'.Plain index held := by
  induction rs generalizing w world with
  | nil =>
    cases hRedirect
    exact h.refresh hHeld
  | cons r rs ih =>
    unfold Wiring.redirectAll at hRedirect
    split at hRedirect
    · next wiring world'' hFirst =>
      refine ih (h.redirect hHeld hFirst) ?_ hRedirect
      have hKept : held → (w.redirect storage dir r world).2.isHeld storage = true := abandoned hHeld
      rw [hFirst] at hKept
      exact hKept
    · cases hRedirect

end Wiring.Plain

namespace Invoker

variable {v : Invoker} {nested : Nested} {output : Output}

theorem launch_inner {index : Nat} {c : Command} {line line' : Line} {start : Launch}
    (h : v.launch output index false c line = (.ok start, line')) :
    start.stage.index = index ∧ start.stage.IsInner ∧
      ((∀ b, line.world.builtin? (c.args.headD "") = some b → b.inOrder = false) → start.inOrder = false) := by
  obtain ⟨hIndex, hLast, -, -, -⟩ := v.stage_launch output index false c line (by rw [h])
  have hPlain {storage : Storage} {w : Wiring} {world : World}
      (hRedirect : (Wiring.initial (if index = 0 then Source.host else .pipe)).redirectAll storage
        (v.directory line.world) c.redirections line.world = (.ok w, world)) : w.source = .pipe → index ≠ 0 :=
    ((Wiring.Plain.initial index False).redirectAll False.elim hRedirect).source
  refine ⟨hIndex, ⟨hLast, ?_⟩, ?_⟩
  · rw [hIndex]
    unfold launch at h
    dsimp only at h
    split at h
    · cases h
    · next w world hRedirect =>
      split at h
      · cases h
        exact hPlain hRedirect
      · split at h
        · cases h
        · cases h
          dsimp only
          cases hSource : w.source with
          | host => simp
          | feed => simp
          | pipe =>
            intro _
            exact hPlain hRedirect hSource
  · intro hConcurrent
    unfold launch at h
    dsimp only at h
    split at h
    · cases h
    · split at h
      · next b hBuiltin =>
        cases h
        exact hConcurrent b hBuiltin
      · split at h
        · cases h
        · cases h
          rfl

theorem launch_held {index : Nat} {isLast : Bool} {c : Command} {line line' : Line} {start : Launch}
    (h : v.launch output index isLast c line = (.ok start, line')) (hMemory : line.world.inMemory = true) {b : Builtin}
    (hBuiltin : line.world.builtin? (c.args.headD "") = some b) :
    (∃ p, start.task = b.task p) ∧ start.desk.feed.cycle = [] ∧ start.stage.isProcess = false ∧
      (start.stage.source = .pipe → index ≠ 0) ∧ (start.stage.source = .host → index = 0) := by
  unfold launch at h
  dsimp only at h
  rw [hBuiltin] at h
  dsimp only at h
  split at h
  · cases h
  · next w world hRedirect =>
    have hHeld : True → line.world.isHeld .shell = true := fun _ => hMemory
    have hPlain := (Wiring.Plain.initial index True).redirectAll hHeld hRedirect
    cases h
    exact ⟨⟨_, rfl⟩, hPlain.feed trivial, rfl, hPlain.source, hPlain.host⟩

/-- Stages that were launched one after the other, up to the first that could not be launched. -/
structure Front where
  starts : List Launch
  fault : Option Fault
  line : Line

def Front.onto (starts : List Launch) (front : Front) : Front := { front with starts := starts ++ front.starts }

/-- Launches commands as stages before the last, up to the first that cannot be launched. -/
def launchFront (v : Invoker) (output : Output) : Nat → List Command → Line → Front
  | _, [], line => ⟨[], none, line⟩
  | index, c :: rest, line =>
    match v.launch output index false c line with
    | (.error fault, line) => ⟨[], some fault, line⟩
    | (.ok start, line) => (launchFront v output (index + 1) rest line).onto [start]

theorem launchFront_append_of_fault {index : Nat} {cs ds : List Command} {line : Line} {fault : Fault}
    (h : (v.launchFront output index cs line).fault = some fault) :
    v.launchFront output index (cs ++ ds) line = v.launchFront output index cs line := by
  induction cs generalizing index line with
  | nil => cases h
  | cons c cs ih =>
    unfold launchFront at h
    rw [List.cons_append]
    unfold launchFront
    cases hLaunch : v.launch output index false c line with
    | mk reply line' =>
      rw [hLaunch] at h
      cases reply with
      | error fault => rfl
      | ok start =>
        dsimp only at h ⊢
        rw [ih h]

theorem launchFront_append_of_none {index : Nat} {cs ds : List Command} {line : Line}
    (h : (v.launchFront output index cs line).fault = none) :
    v.launchFront output index (cs ++ ds) line =
      (v.launchFront output (index + cs.length) ds (v.launchFront output index cs line).line).onto
        (v.launchFront output index cs line).starts := by
  induction cs generalizing index line with
  | nil => rfl
  | cons c cs ih =>
    unfold launchFront at h
    rw [List.cons_append, launchFront, launchFront]
    cases hLaunch : v.launch output index false c line with
    | mk reply line' =>
      rw [hLaunch] at h
      cases reply with
      | error fault => cases h
      | ok start =>
        dsimp only at h ⊢
        rw [ih h, List.length_cons, show index + (cs.length + 1) = index + 1 + cs.length by omega]
        rfl

/-- Of the commands, those that are builtins go on while others are launched. -/
def Concurrent (w : World) (cs : List Command) : Prop :=
  ∀ c ∈ cs, ∀ b, w.builtin? (c.args.headD "") = some b → b.inOrder = false

variable (v output) in
theorem builtin_launch (index : Nat) (isLast : Bool) (c : Command) (line : Line) :
    (v.launch output index isLast c line).2.world.builtin? = line.world.builtin? :=
  congrArg Prod.fst (v.ground_launch output index isLast c line)

/-- The stages of a pipeline without builtins that run in order are launched before any of them runs. -/
theorem launchAll_front {index : Nat} {cs : List Command} (c : Command) {running : List Activity} {line : Line}
    (hConcurrent : Concurrent line.world cs) :
    v.launchAll nested output index running (cs ++ [c]) line =
      let front := v.launchFront output index cs line
      let acts := running ++ front.starts.map (Launch.fresh nested)
      match front.fault with
      | some fault => (.aborted fault acts, front.line)
      | none => v.launchAll nested output (index + cs.length) acts [c] front.line := by
  induction cs generalizing index running line with
  | nil => simp [launchFront]
  | cons d cs ih =>
    obtain ⟨hFirst, hRest⟩ := List.forall_mem_cons.mp hConcurrent
    have hMore : (cs ++ [c]).isEmpty = false := by simp
    have hKept := v.builtin_launch output index false d line
    rw [List.cons_append, launchAll_cons, launchFront, hMore]
    cases hLaunch : v.launch output index false d line with
    | mk reply line' =>
      rw [hLaunch] at hKept
      cases reply with
      | error fault => simp
      | ok start =>
        obtain ⟨-, -, hOrder⟩ := launch_inner hLaunch
        have hConcurrent' : Concurrent line'.world cs := by
          intro c hc b hb
          rw [hKept] at hb
          exact hRest c hc b hb
        have hIndex : index + 1 + cs.length = index + (cs.length + 1) := by omega
        simp only [Bool.false_eq_true, if_false, hOrder hFirst, ih hConcurrent', Front.onto, List.map_append,
          List.map_cons, List.map_nil, List.append_assoc, Launch.fresh, List.length_cons, hIndex]

variable (v output) in
theorem launchFront_row (index : Nat) (cs : List Command) (line : Line) :
    InnerRow index (v.launchFront output index cs line).starts := by
  induction cs generalizing index line with
  | nil => exact .nil
  | cons c cs ih =>
    unfold launchFront
    cases hLaunch : v.launch output index false c line with
    | mk reply line' =>
      cases reply with
      | error fault => exact .nil
      | ok start =>
        obtain ⟨hIndex, hInner, -⟩ := launch_inner hLaunch
        exact .cons hIndex hInner (ih (index + 1) line')

variable (v output) in
theorem length_launchFront (index : Nat) (cs : List Command) (line : Line) :
    (v.launchFront output index cs line).starts.length ≤ cs.length ∧
      ((v.launchFront output index cs line).fault = none →
        (v.launchFront output index cs line).starts.length = cs.length) := by
  induction cs generalizing index line with
  | nil => exact ⟨Nat.le_refl 0, fun _ => rfl⟩
  | cons c cs ih =>
    unfold launchFront
    split
    · exact ⟨Nat.zero_le _, by simp⟩
    · next line' _ =>
      obtain ⟨hShort, hWhole⟩ := ih (index + 1) line'
      exact ⟨Nat.succ_le_succ hShort, fun h => congrArg (· + 1) (hWhole h)⟩

variable (v output) in
theorem flow_launch (index : Nat) (isLast : Bool) (c : Command) (line : Line) :
    (v.launch output index isLast c line).2.flow = line.flow := by
  rw [v.line_launch output index isLast c line]
  rfl

theorem aloof_launchFront {γ : Type} {f : World → γ} (hf : World.Aloof f)
    (hInput : ∀ (w : World) (input : Bytes), f { w with input := input } = f w) (index : Nat) (cs : List Command)
    (line : Line) : f (v.launchFront output index cs line).line.world = f line.world := by
  induction cs generalizing index line with
  | nil => rfl
  | cons c cs ih =>
    have hFirst := hf.launch hInput v output index false c line
    unfold launchFront
    split
    · next hLaunch =>
      rw [hLaunch] at hFirst
      exact hFirst
    · next hLaunch =>
      rw [hLaunch] at hFirst
      exact (ih _ _).trans hFirst

theorem builtin_launchFront (index : Nat) (cs : List Command) (line : Line) :
    (v.launchFront output index cs line).line.world.builtin? = line.world.builtin? :=
  congrArg Prod.fst (aloof_launchFront World.ground_serve (fun _ _ => rfl) index cs line)

variable (v output) in
theorem flow_launchFront (index : Nat) (cs : List Command) (line : Line) :
    (v.launchFront output index cs line).line.flow = line.flow := by
  induction cs generalizing index line with
  | nil => rfl
  | cons c cs ih =>
    have hFirst := v.flow_launch output index false c line
    unfold launchFront
    split
    · next hLaunch =>
      rw [hLaunch] at hFirst
      exact hFirst
    · next hLaunch =>
      rw [hLaunch] at hFirst
      exact (ih _ _).trans hFirst

variable (v output) in
theorem launchFront_beside {ts : Bytes × Bytes} {e : Nat → Nat} {index d : Nat} (hFirst : index + d = 0 ↔ index = 0)
    (cs : List Command) {line line' : Line} (h : line.Beside ts e line') :
    let front := v.launchFront output index cs line
    let front' := v.launchFront output (index + d) cs line'
    front'.starts = front.starts.map (Launch.further d) ∧ front'.fault = front.fault ∧
      front.line.Beside ts e front'.line := by
  induction cs generalizing index line line' with
  | nil => exact ⟨rfl, rfl, h⟩
  | cons c cs ih =>
    obtain ⟨hStart, hLine⟩ := v.launch_alike output hFirst false c h
    dsimp only
    rw [launchFront, launchFront]
    cases hLaunch : v.launch output index false c line with
    | mk reply line₁ =>
      cases hLaunch' : v.launch output (index + d) false c line' with
      | mk reply' line₂ =>
        rw [hLaunch, hLaunch'] at hStart hLine
        dsimp only at hStart hLine
        cases reply with
        | error fault =>
          subst hStart
          exact ⟨rfl, rfl, hLine⟩
        | ok start =>
          subst hStart
          have hNext : index + 1 + d = 0 ↔ index + 1 = 0 := by omega
          obtain ⟨hStarts, hFault, hLast⟩ := ih hNext hLine
          rw [show index + 1 + d = index + d + 1 by omega] at hStarts hFault hLast
          exact ⟨congrArg (Launch.further d start :: ·) hStarts, hFault, hLast⟩

/-- Commands that are builtins, each of which waits for nothing but the end of its input. -/
def Plain (w : World) (cs : List Command) : Prop :=
  ∀ c ∈ cs, ∃ b, w.builtin? (c.args.headD "") = some b ∧ ∀ p, (b.task p).IsPlain

theorem lookup_standard {w : World} (hBuiltins : w.builtins = Builtin.text ++ Builtin.standard) {name : String}
    (h : (w.builtins.lookup name).isSome) :
    ∃ b, w.builtin? name = some b ∧ (name, b) ∈ Builtin.text ++ Builtin.standard := by
  obtain ⟨b, hLookup⟩ := Option.isSome_iff_exists.mp h
  obtain ⟨front, back, hSplit, -⟩ := List.lookup_eq_some_iff.mp hLookup
  refine ⟨b, ?_, ?_⟩
  · unfold World.builtin?
    rw [hLookup]
    rfl
  · rw [← hBuiltins, hSplit]
    exact List.mem_append_right front List.mem_cons_self

theorem plain_of_standard {w : World} (hBuiltins : w.builtins = Builtin.text ++ Builtin.standard) {cs : List Command}
    (h : ∀ c ∈ cs, (w.builtins.lookup (c.args.headD "")).isSome) : Plain w cs := by
  intro c hc
  obtain ⟨b, hBuiltin, hMem⟩ := lookup_standard hBuiltins (h c hc)
  exact ⟨b, hBuiltin, Builtin.plain_of_mem hMem⟩

theorem concurrent_of_standard {w : World} (hBuiltins : w.builtins = Builtin.text ++ Builtin.standard)
    {cs : List Command}
    (h : ∀ c ∈ cs, (w.builtins.lookup (c.args.headD "")).isSome ∧ c.args.headD "" ≠ "cd") : Concurrent w cs := by
  intro c hc b hb
  obtain ⟨hSome, hName⟩ := h c hc
  obtain ⟨b', hBuiltin, hMem⟩ := lookup_standard hBuiltins hSome
  rw [hBuiltin] at hb
  cases hb
  exact Builtin.concurrent_of_mem hMem hName

theorem launchFront_plain {index : Nat} {cs : List Command} {line : Line} (h : Plain line.world cs)
    (hMemory : line.world.inMemory = true) :
    ∀ l ∈ (v.launchFront output index cs line).starts, Program.IsPlain l.task ∧ l.desk.feed.cycle = [] := by
  induction cs generalizing index line with
  | nil => exact List.forall_mem_nil _
  | cons c cs ih =>
    obtain ⟨⟨b, hBuiltin, hTask⟩, hRest⟩ := List.forall_mem_cons.mp h
    have hHeld : World.Aloof World.inMemory := fun w storage request => w.isHeld_serve storage .shell request
    have hMemory' := hHeld.launch (fun _ _ => rfl) v output index false c line
    have hKept := v.builtin_launch output index false c line
    unfold launchFront
    split
    · exact List.forall_mem_nil _
    · next start line' hLaunch =>
      rw [hLaunch] at hMemory' hKept
      obtain ⟨⟨p, hStart⟩, hFeed, -⟩ := launch_held hLaunch hMemory hBuiltin
      have hNext : Plain line'.world cs := by
        intro d hd
        rw [hKept]
        exact hRest d hd
      exact List.forall_mem_cons.mpr ⟨⟨hStart ▸ hTask p, hFeed⟩, ih hNext (hMemory'.trans hMemory)⟩

end Invoker

end Pipework
