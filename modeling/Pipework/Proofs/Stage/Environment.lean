import Mathlib.Data.List.Nodup
import Mathlib.Data.List.TakeWhile
import Pipework.Host.Programs
import Pipework.Proofs.Schedule.Basic
import Pipework.Proofs.Stage.Lone
import Pipework.Proofs.Stage.Refusal

/-!
# The variables of a command

A builtin asks for a variable in layers: what is set for the command, the overlay, the host. A process is
handed one list of them all, in which the last that is about a name counts. Both see the same values, in
whatever order the layers are listed.
-/

namespace Pipework

namespace Table

theorem find?_append (s t : Table) (key : String) : find? key (s ++ t) = (s.find? key).or (t.find? key) := by
  induction s with
  | nil => simp [find?]
  | cons entry s ih => grind [find?]

theorem find?_eq_none {t : Table} {key : String} (h : key ∉ t.map Prod.fst) : t.find? key = none := by
  induction t with
  | nil => rfl
  | cons entry t ih =>
    obtain ⟨hEntry, hRest⟩ := not_or.mp (mt List.mem_cons.mpr h)
    rw [find?, if_neg (Ne.symm hEntry), ih hRest]

theorem find?_eq_some_iff {t : Table} (hNodup : (t.map Prod.fst).Nodup) {key value : String} :
    t.find? key = some value ↔ (key, value) ∈ t := by
  induction t with
  | nil => simp [find?]
  | cons entry t ih =>
    obtain ⟨name, other⟩ := entry
    obtain ⟨hName, hRest⟩ := List.nodup_cons.mp hNodup
    rw [find?, List.mem_cons, Prod.mk.injEq]
    by_cases hKey : name = key
    · subst hKey
      have hFree : (name, value) ∉ t := fun hMem => hName (List.mem_map.mpr ⟨_, hMem, rfl⟩)
      simp [hFree, eq_comm]
    · rw [if_neg hKey, ih hRest]
      simp [Ne.symm hKey]

theorem find?_perm {s t : Table} (hNodup : (s.map Prod.fst).Nodup) (hPerm : s.Perm t) (key : String) :
    s.find? key = t.find? key := by
  have hNodup' : (t.map Prod.fst).Nodup := (hPerm.map Prod.fst).nodup_iff.mp hNodup
  refine Option.ext fun value => ?_
  rw [find?_eq_some_iff hNodup, find?_eq_some_iff hNodup', hPerm.mem_iff]

end Table

namespace Host

/-- Variables that a process can be given, each with one value. -/
structure IsEnvironment (t : Table) : Prop where
  nodup : (t.map Prod.fst).Nodup
  proper : ∀ entry ∈ t, isVariable entry.1 entry.2 = true

/-- A variable as the one text that a process is handed. -/
def assignment (entry : String × String) : String := entry.1 ++ "=" ++ entry.2

/-- The value that `text` gives to `key`, if what stands before its first equals sign is `key`. -/
def valueIn? (key text : String) : Option String :=
  match text.toList.dropWhile (· ≠ '=') with
  | [] => none
  | _ :: value => if text.toList.takeWhile (· ≠ '=') = key.toList then some (String.ofList value) else none

/-- The value of `key` among `texts`, the last of which that is about it counts. -/
def lastValue? (key : String) (texts : List String) : Option String := texts.reverse.findSome? (valueIn? key)

theorem isVariable_name {name value : String} (h : isVariable name value = true) :
    ∀ x ∈ name.toList, decide (x ≠ '=') = true := by
  simp only [isVariable, Bool.and_eq_true, Bool.not_eq_true', List.contains_eq_mem, decide_eq_false_iff_not] at h
  intro x hx
  exact decide_eq_true fun hEq => h.1.1.2 (hEq ▸ hx)

theorem valueIn?_assignment {name value : String} (h : isVariable name value = true) (key : String) :
    valueIn? key (assignment (name, value)) = if name = key then some value else none := by
  have hText : (assignment (name, value)).toList = name.toList ++ '=' :: value.toList := by
    simp [assignment]
  have hName := isVariable_name h
  rw [valueIn?, hText, List.dropWhile_append_of_pos hName, List.takeWhile_append_of_pos hName]
  simp [String.toList_inj]

theorem lastValue?_append (key : String) (xs ys : List String) :
    lastValue? key (xs ++ ys) = (lastValue? key ys).or (lastValue? key xs) := by
  rw [lastValue?, List.reverse_append, List.findSome?_append]
  rfl

theorem lastValue?_map {t : Table} (h : IsEnvironment t) (key : String) :
    lastValue? key (t.map assignment) = t.find? key := by
  induction t with
  | nil => rfl
  | cons entry t ih =>
    obtain ⟨name, value⟩ := entry
    obtain ⟨hName, hRest⟩ := List.nodup_cons.mp h.nodup
    obtain ⟨hEntry, hProper⟩ := List.forall_mem_cons.mp h.proper
    have hOne : lastValue? key [assignment (name, value)] = if name = key then some value else none := by
      rw [← valueIn?_assignment hEntry]
      simp [lastValue?]
    rw [List.map_cons, ← List.singleton_append, lastValue?_append, ih ⟨hRest, hProper⟩, hOne, Table.find?]
    by_cases hKey : name = key
    · subst hKey
      rw [Table.find?_eq_none hName, Option.none_or, if_pos rfl]
    · rw [if_neg hKey, if_neg hKey, Option.or_none]

theorem entry_eq {name : String} (h : ∀ x ∈ name.toList, decide (x ≠ '=') = true) (value : String) :
    entry name value = (name, value) := by
  have hAll : name.toList.takeWhile (· ≠ '=') = name.toList := List.takeWhile_eq_self_iff.mpr h
  rw [entry, hAll, if_pos rfl]

theorem entries_eq {t : Table} (h : ∀ entry ∈ t, isVariable entry.1 entry.2 = true) : entries t = t :=
  (List.map_congr_left fun e he => entry_eq (isVariable_name (h e he)) e.2).trans (List.map_id t)

theorem extended_append (env s t : Table) : extended env (s ++ t) = extended (extended env s) t :=
  List.foldl_append

theorem find?_extended (env : Table) {t : Table} (hNodup : (t.map Prod.fst).Nodup) (key : String) :
    (extended env t).find? key = (t.find? key).or (env.find? key) := by
  induction t generalizing env with
  | nil => rfl
  | cons entry t ih =>
    obtain ⟨name, value⟩ := entry
    obtain ⟨hName, hRest⟩ := List.nodup_cons.mp hNodup
    -- A name that is set once more is first taken out, so each has one place.
    have hStep : extended env ((name, value) :: t) = extended (env.erase name ++ [(name, value)]) t := rfl
    rw [hStep, ih _ hRest, Table.find?_append, Table.find?_erase, Table.find?, Table.find?, Table.find?]
    by_cases hKey : name = key
    · subst hKey
      simp [Table.find?_eq_none hName]
    · simp [hKey, Ne.symm hKey]

theorem IsEnvironment.extended {env t : Table} (hEnv : IsEnvironment env)
    (hProper : ∀ entry ∈ t, isVariable entry.1 entry.2 = true) : IsEnvironment (extended env t) := by
  induction t generalizing env with
  | nil => exact hEnv
  | cons entry t ih =>
    obtain ⟨name, value⟩ := entry
    obtain ⟨hEntry, hRest⟩ := List.forall_mem_cons.mp hProper
    refine ih ⟨?_, ?_⟩ hRest
    · have hErase : ((env.erase name).map Prod.fst).Nodup :=
        hEnv.nodup.sublist (List.filter_sublist.map Prod.fst)
      have hFree : name ∉ (env.erase name).map Prod.fst := by
        rintro hMem
        obtain ⟨other, hOther, rfl⟩ := List.mem_map.mp hMem
        exact of_decide_eq_true (List.mem_filter.mp hOther).2 rfl
      rw [List.map_append]
      exact hErase.append (List.nodup_singleton name) (List.disjoint_singleton.mpr hFree)
    · rw [List.forall_mem_append]
      exact ⟨fun other hOther => hEnv.proper other (List.mem_filter.mp hOther).1, List.forall_mem_singleton.mpr hEntry⟩

end Host

def World.tables (w : World) : List Overlay × Table := (w.overlays, w.host.env)

theorem World.tables_serve : Aloof tables := by
  intro w storage request
  obtain ⟨memory, tree, hServe⟩ := w.serve_eq storage request
  rw [hServe]
  rfl

namespace Invoker

variable (v : Invoker)

/-- The value of `key` for the command `c`: what is set for it, or else in the overlay, or else on the host. -/
def valueFor (w : World) (c : Command) (key : String) : String :=
  ((c.env.find? key).or (lookupThrough (w.overlay v.overlay) w.host.env key)).getD ""

variable {v} {w : World} {c : Command}

/-- The layers listed one after the other, the overlay and the command's own in any order. -/
theorem value_of_layers (hHost : Host.IsEnvironment w.host.env) (hOverlay : Host.IsEnvironment (w.overlay v.overlay))
    (hCommand : Host.IsEnvironment c.env) {o a : Table} (ho : o.Perm (w.overlay v.overlay)) (ha : a.Perm c.env)
    (key : String) :
    (Host.lastValue? key ((w.host.env ++ o ++ a).map Host.assignment)).getD "" = v.valueFor w c key ∧
    ((Host.extended w.host.env (Host.entries o ++ a)).find? key).getD "" = v.valueFor w c key := by
  have hListed {s t : Table} (h : Host.IsEnvironment t) (hPerm : s.Perm t) :
      Host.IsEnvironment s ∧ s.find? key = t.find? key := by
    have hNodup := (hPerm.map Prod.fst).nodup_iff.mpr h.nodup
    exact ⟨⟨hNodup, fun entry hEntry => h.proper entry (hPerm.mem_iff.mp hEntry)⟩,
      Table.find?_perm hNodup hPerm key⟩
  obtain ⟨hO, hFindO⟩ := hListed hOverlay ho
  obtain ⟨hA, hFindA⟩ := hListed hCommand ha
  constructor
  · rw [List.map_append, List.map_append, Host.lastValue?_append, Host.lastValue?_append, Host.lastValue?_map hHost,
      Host.lastValue?_map hO, Host.lastValue?_map hA, hFindO, hFindA]
    rfl
  · rw [Host.extended_append, Host.entries_eq hO.proper, Host.find?_extended _ hA.nodup,
      Host.find?_extended _ hO.nodup, hFindO, hFindA]
    rfl

theorem isEnvironment_processEnv (hHost : Host.IsEnvironment w.host.env)
    (hOverlay : Host.IsEnvironment (w.overlay v.overlay)) (hCommand : Host.IsEnvironment c.env) :
    Host.IsEnvironment (v.processEnv w c) := by
  rw [processEnv, Host.entries_eq hOverlay.proper]
  exact hHost.extended (List.forall_mem_append.mpr ⟨hOverlay.proper, hCommand.proper⟩)

theorem processEnv_of_tables (v : Invoker) (c : Command) {w' : World} (h : w'.tables = w.tables) :
    v.processEnv w' c = v.processEnv w c := by
  obtain ⟨hOverlays, hEnv⟩ := Prod.mk.inj h
  rw [processEnv, processEnv, World.overlay, World.overlay, hOverlays, hEnv]

/-- A launched command is a builtin with the variables that are set for it, or one of the host's programs with
all variables. -/
theorem launch_hands {output : Output} {index : Nat} {isLast : Bool} {line line' : Line} {start : Launch}
    (h : v.launch output index isLast c line = (.ok start, line')) :
    if start.stage.isProcess then
      line.world.builtin? (c.args.headD "") = none ∧ ∃ program ∈ v.programs, ∃ spawn : Host.Spawn,
        spawn.env = v.processEnv line.world c ∧ start.task = program.2 spawn
    else
      ∃ b p, line.world.builtin? (c.args.headD "") = some b ∧ p.env = c.env ∧ start.task = b.task p := by
  have hRedirected (storage : Storage) (source : Source) :
      v.processEnv
          ((Wiring.initial source).redirectAll storage (v.directory line.world) c.redirections line.world).2 c =
        v.processEnv line.world c :=
    processEnv_of_tables v c (World.tables_serve.redirectAll _ _ _ _ _)
  unfold launch at h
  dsimp only at h
  split at h
  · cases h
  · next w world hRedirect =>
    split at h
    · next b hBuiltin =>
      cases h
      exact ⟨b, _, hBuiltin, rfl, rfl⟩
    · next hNone =>
      split at h
      · cases h
      · next task hStart =>
        cases h
        obtain ⟨program, hProgram, spawn, hEnv, hTask⟩ := Host.offers_start _ _ _ _ _ _ _ hStart
        refine ⟨hNone, program, hProgram, spawn, ?_, hTask⟩
        rw [hEnv, ← hRedirected, hRedirect]

end Invoker

theorem Stage.run_getenv (st : Stage) (nested : Nested) {v : Invoker} {c : Command} {p : Proc} (key : String)
    (next : String → Task Unit) (desk : Desk) (line : Line) (hOverlay : st.overlay = v.overlay) (hEnv : p.env = c.env) :
    st.run nested (p.getenv key >>= next : Task Unit) desk line =
      st.run nested (next (v.valueFor line.world c key)) desk line := by
  unfold Proc.getenv Invoker.valueFor
  rw [hEnv, ← hOverlay]
  cases c.env.find? key with
  | some value => rfl
  | none =>
    have hAct : ((do return (← Task.perform (.lookup key)).getD "") >>= next : Task Unit) =
        (Program.act (.lookup key) fun answer => next (answer.getD "") : Program (Except Fault Unit)) := rfl
    refine (congrArg (fun task => st.run nested task desk line) hAct).trans ?_
    exact Stage.run_answered rfl _

/-- What a builtin is told of a variable is what a process in its place would find. -/
theorem Invoker.environment_agrees {v : Invoker} {c : Command} {line : Line}
    (hHost : Host.IsEnvironment line.world.host.env) (hOverlay : Host.IsEnvironment (line.world.overlay v.overlay))
    (hCommand : Host.IsEnvironment c.env) (output : Output) (index : Nat) (isLast : Bool) (key : String) :
    (∀ o a : Table, o.Perm (line.world.overlay v.overlay) → a.Perm c.env →
      (Host.lastValue? key ((line.world.host.env ++ o ++ a).map Host.assignment)).getD "" =
        v.valueFor line.world c key ∧
      ((Host.extended line.world.host.env (Host.entries o ++ a)).find? key).getD "" = v.valueFor line.world c key) ∧
    ∀ start line', v.launch output index isLast c line = (.ok start, line') →
      if start.stage.isProcess then
        ∃ program ∈ v.programs, ∃ spawn : Host.Spawn, start.task = program.2 spawn ∧
          Host.IsEnvironment spawn.env ∧ (spawn.env.find? key).getD "" = v.valueFor line.world c key
      else
        ∃ b p, line.world.builtin? (c.args.headD "") = some b ∧ start.task = b.task p ∧
          ∀ nested (next : String → Task Unit) desk line₁,
            line₁.world.overlay v.overlay = line.world.overlay v.overlay →
            line₁.world.host.env = line.world.host.env →
            start.stage.run nested (p.getenv key >>= next : Task Unit) desk line₁ =
              start.stage.run nested (next (v.valueFor line.world c key)) desk line₁ := by
  refine ⟨fun o a ho ha => value_of_layers hHost hOverlay hCommand ho ha key, fun start line' hLaunch => ?_⟩
  have hHands := launch_hands hLaunch
  split at hHands
  · next hProcess =>
    obtain ⟨-, program, hProgram, spawn, hEnv, hTask⟩ := hHands
    rw [if_pos hProcess]
    refine ⟨program, hProgram, spawn, hTask, ?_, ?_⟩
    · rw [hEnv]
      exact isEnvironment_processEnv hHost hOverlay hCommand
    · rw [hEnv]
      exact (value_of_layers hHost hOverlay hCommand (.refl _) (.refl _) key).2
  · next hBuiltin =>
    obtain ⟨b, p, hFound, hEnv, hTask⟩ := hHands
    have hStage := (v.stage_launch output index isLast c line (congrArg Prod.fst hLaunch)).2.2.2.1
    rw [if_neg hBuiltin]
    refine ⟨b, p, hFound, hTask, fun nested next desk line₁ hOverlay₁ hHost₁ => ?_⟩
    rw [start.stage.run_getenv nested key next desk line₁ hStage hEnv, valueFor, hOverlay₁, hHost₁]
    rfl

/-- The name is set on all three layers. -/
theorem Invoker.environment_agrees_layered :
    let host : Host := ⟨[("PATH", "/bin"), ("X", "1"), ("Y", "1")], "/",
      ⟨[(["bin"], .directory), (["bin", "printenv"], .file Host.programMark true)]⟩⟩
    let world : World := { World.bench [("X", "2"), ("Y", "2")] with host := host }
    let v : Invoker := { Invoker.bench with programs := Host.tools }
    let c : Command := ⟨["printenv", "X"], [("X", "3")], []⟩
    let line : Line := ⟨world, .opened, [], [], [], .opened false, false, false⟩
    Host.IsEnvironment host.env ∧ Host.IsEnvironment (world.overlay v.overlay) ∧ Host.IsEnvironment c.env ∧
      (Host.lastValue? "X" ((host.env ++ [("Y", "2"), ("X", "2")] ++ c.env).map Host.assignment)).getD "" =
        v.valueFor world c "X" ∧
      ∃ start line', v.launch .host 0 true c line = (.ok start, line') ∧ start.stage.isProcess = true ∧
        ∃ program ∈ v.programs, ∃ spawn : Host.Spawn, start.task = program.2 spawn ∧
          (spawn.env.find? "X").getD "" = "3" := by
  intro host world v c line
  have hHost : Host.IsEnvironment host.env := ⟨by decide, by decide +kernel⟩
  have hOverlay : Host.IsEnvironment (world.overlay v.overlay) := ⟨by decide, by decide +kernel⟩
  have hCommand : Host.IsEnvironment c.env := ⟨by decide, by decide +kernel⟩
  obtain ⟨hLayers, hLaunched⟩ :=
    @environment_agrees v c line hHost hOverlay hCommand .host 0 true "X"
  refine ⟨hHost, hOverlay, hCommand, (hLayers _ _ (List.Perm.swap _ _ _) (.refl _)).1, ?_⟩
  have hOk : (match v.launch .host 0 true c line with
      | (.ok start, _) => start.stage.isProcess
      | (.error _, _) => false) = true := by decide +kernel
  cases hLaunch : v.launch .host 0 true c line with
  | mk reply line' =>
    rw [hLaunch] at hOk
    cases reply with
    | error fault => cases hOk
    | ok start =>
      have hHanded := hLaunched start line' hLaunch
      rw [if_pos hOk] at hHanded
      obtain ⟨program, hProgram, spawn, hTask, -, hValue⟩ := hHanded
      exact ⟨start, line', rfl, hOk, program, hProgram, spawn, hTask, hValue.trans (by decide +kernel)⟩

end Pipework
