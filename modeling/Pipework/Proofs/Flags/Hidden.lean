import Pipework.Proofs.Script.WellFormed
import Pipework.Proofs.Stage.Environment

/-!
# A world without a variable

Two runs of a script are compared, one with a variable set and one without it. What they do to the tables of
variables comes to the same, as long as nothing asks for the one variable or sets it. A process is handed the
variables with it or without it, unless the command sets it by itself.
-/

namespace Pipework

namespace Table

variable {key : String}

theorem erase_eq_self {t : Table} (h : ∀ entry ∈ t, entry.1 ≠ key) : t.erase key = t :=
  List.filter_eq_self.mpr fun entry hEntry => decide_eq_true (h entry hEntry)

theorem erase_comm (t : Table) (k : String) : (t.erase k).erase key = (t.erase key).erase k := by
  simp only [erase, List.filter_filter, Bool.and_comm]

theorem erase_append (s t : Table) : erase key (s ++ t) = s.erase key ++ t.erase key := List.filter_append _ _

theorem erase_cons (k value : String) (t : Table) :
    erase key ((k, value) :: t) = if k = key then t.erase key else (k, value) :: t.erase key := by
  by_cases hk : k = key <;> simp [erase, hk]

theorem Ordered.erase {t : Table} (h : t.Ordered) (key : String) : (t.erase key).Ordered :=
  List.Pairwise.filter _ h

theorem insert_of_lt {t : Table} {k : String} (h : ∀ entry ∈ t, k < entry.1) (value : String) :
    t.insert k value = (k, value) :: t := by
  cases t with
  | nil => rfl
  | cons entry t =>
    have hFirst := h entry List.mem_cons_self
    rw [insert, if_neg (fun hEq => absurd (hEq ▸ hFirst) (String.lt_irrefl _)), if_pos hFirst]

theorem erase_insert {k : String} (hk : k ≠ key) (value : String) {t : Table} (h : t.Ordered) :
    (t.insert k value).erase key = (t.erase key).insert k value := by
  induction t with
  | nil => simp [insert, erase, hk]
  | cons entry t ih =>
    obtain ⟨name, other⟩ := entry
    obtain ⟨hFirst, hRest⟩ := List.pairwise_cons.mp h
    rw [insert, erase_cons name]
    by_cases hSame : name = k
    · subst hSame
      rw [if_pos rfl, if_neg hk, erase_cons, if_neg hk, insert, if_pos rfl]
    · rw [if_neg hSame]
      by_cases hLess : k < name
      · -- Both go in front, also if the first entry is erased.
        have hBelow : ∀ entry ∈ Table.erase key t, k < entry.1 := fun entry hEntry =>
          String.lt_trans hLess (hFirst entry (List.mem_filter.mp hEntry).1)
        rw [if_pos hLess, erase_cons, if_neg hk, erase_cons]
        by_cases hName : name = key
        · rw [if_pos hName, insert_of_lt hBelow]
        · rw [if_neg hName, insert, if_neg hSame, if_pos hLess]
      · rw [if_neg hLess, erase_cons, ih hRest]
        by_cases hName : name = key
        · rw [if_pos hName, if_pos hName]
        · rw [if_neg hName, if_neg hName, insert, if_neg hSame, if_neg hLess]

theorem erase_assign {k : String} (hk : k ≠ key) (value : Option String) {t : Table} (h : t.Ordered) :
    (t.assign k value).erase key = (t.erase key).assign k value := by
  cases value with
  | none => exact erase_comm t k
  | some value => exact erase_insert hk value h

theorem Ordered.assign {t : Table} (h : t.Ordered) (k : String) (value : Option String) :
    (t.assign k value).Ordered := by
  cases value with
  | none => exact h.erase k
  | some value => exact h.insert k value

end Table

theorem Scope.save_erase (s : Scope) (o : Overlay) {key k : String} (hk : k ≠ key) :
    s.save (Table.erase key o) k = s.save o k := by
  rw [save, save, Table.find?_erase, if_neg hk]

theorem Scope.erase_restore {s : Scope} {key : String} (hPrior : s.prior? key = none) {o : Overlay}
    (ho : Table.Ordered o) :
    Table.Ordered (s.restore o).2 ∧ Table.erase key (s.restore o).2 = (s.restore (Table.erase key o)).2 := by
  obtain ⟨saved⟩ := s
  simp only [prior?] at hPrior
  simp only [restore]
  induction saved with
  | nil => exact ⟨ho, rfl⟩
  | cons entry saved ih =>
    obtain ⟨k, value⟩ := entry
    rw [List.lookup_cons] at hPrior
    split at hPrior
    · cases hPrior
    · next hNe =>
      obtain ⟨hOrdered, hErase⟩ := ih hPrior
      have hk : k ≠ key := fun hEq => by simp [hEq] at hNe
      refine ⟨hOrdered.assign k value, ?_⟩
      rw [List.foldr_cons, List.foldr_cons, Table.erase_assign hk value hOrdered, hErase]

namespace Host

/-- The variables `env'` are `env`, or `env` without `key`. -/
def Lacks (key : String) (env env' : Table) : Prop := env' = env ∨ env' = env.erase key

variable {key : String} {env env' : Table}

theorem Lacks.extended (h : Lacks key env env') (t : Table) : Lacks key (extended env t) (extended env' t) := by
  induction t generalizing env env' with
  | nil => exact h
  | cons entry t ih =>
    obtain ⟨k, x⟩ := entry
    have hStep : Lacks key (env.erase k ++ [(k, x)]) (env'.erase k ++ [(k, x)]) := by
      rcases h with rfl | rfl
      · exact .inl rfl
      · by_cases hk : k = key
        · subst hk
          refine .inl ?_
          rw [Table.erase_eq_self (t := env.erase k)
            fun entry hEntry => of_decide_eq_true (List.mem_filter.mp hEntry).2]
        · refine .inr ?_
          rw [Table.erase_append, Table.erase_comm, Table.erase_cons, if_neg hk]
          rfl
    exact ih hStep

/-- An entry that is about `key` though it was set under another name comes after those that are set as `key`. -/
theorem lt_of_entry {name other : String} (hEntry : (entry name other).1 = key) (hName : name ≠ key) : key < name := by
  unfold entry at hEntry
  dsimp only at hEntry
  split at hEntry
  · exact absurd hEntry hName
  · next hLength =>
    have hPrefix : key.toList <+: name.toList := by
      rw [← hEntry, String.toList_ofList]
      exact List.takeWhile_prefix _
    obtain ⟨rest, hRest⟩ := hPrefix
    have hNe : rest ≠ [] := by
      rintro rfl
      rw [List.append_nil, String.toList_inj] at hRest
      exact hName hRest.symm
    rw [String.lt_iff, ← hRest]
    obtain ⟨x, rest, rfl⟩ := List.exists_cons_of_ne_nil hNe
    generalize key.toList = cs
    induction cs with
    | nil => exact List.nil_lt_cons _ _
    | cons c cs ih => exact List.cons_lt_cons_iff.mpr (.inr ⟨rfl, ih⟩)

theorem lacks_entries (hKey : ∀ x ∈ key.toList, decide (x ≠ '=') = true) {o : Overlay} (ho : Table.Ordered o) :
    Lacks key (extended env (entries o)) (extended (env.erase key) (entries (Table.erase key o))) := by
  induction o generalizing env with
  | nil => exact .inr rfl
  | cons first o ih =>
    obtain ⟨name, other⟩ := first
    obtain ⟨hFirst, hRest⟩ := List.pairwise_cons.mp ho
    have hAbsent (h : key < name ∨ name = key) : Table.erase key o = o := by
      refine Table.erase_eq_self fun entry hEntry hEq => ?_
      have hLess : name < key := hEq ▸ hFirst entry hEntry
      rcases h with h | rfl
      · exact String.lt_irrefl _ (String.lt_trans h hLess)
      · exact String.lt_irrefl _ hLess
    have hCons (o : Overlay) : entries ((name, other) :: o) = entry name other :: entries o := rfl
    have hStep (env t : Table) (e : String × String) : extended env (e :: t) = extended (env.erase e.1 ++ [e]) t := rfl
    rw [hCons, hStep, Table.erase_cons]
    by_cases hName : name = key
    · subst hName
      rw [if_pos rfl, hAbsent (.inr rfl), entry_eq hKey]
      refine Lacks.extended (.inr ?_) _
      rw [Table.erase_append, Table.erase_cons, if_pos rfl]
      simp [Table.erase]
    · rw [if_neg hName, hCons, hStep]
      -- A name with an equals sign in it may come out as `key`, and then replaces it in both.
      by_cases hEntry : (entry name other).1 = key
      · rw [hAbsent (.inl (lt_of_entry hEntry hName)), hEntry]
        refine Lacks.extended (.inl ?_) _
        simp [Table.erase]
      · have hBase : (env.erase key).erase (entry name other).1 ++ [entry name other] =
            Table.erase key (env.erase (entry name other).1 ++ [entry name other]) := by
          rw [Table.erase_append, Table.erase_comm, Table.erase_cons, if_neg hEntry]
          rfl
        rw [hBase]
        exact ih hRest

theorem answer_env (h : Host) (env : Table) (request : FileRequest) :
    ({ h with env := env } : Host).answer request = h.answer request := by
  cases request <;> rfl

theorem serve_env (h : Host) (env : Table) (request : FileRequest) :
    ({ h with env := env } : Host).serve request =
      ((h.serve request).1, { (h.serve request).2 with env := env }) := by
  unfold serve
  rw [answer_env]
  cases h.answer request <;> rfl

theorem place_env (h : Host) (env : Table) (path : String) : ({ h with env := env } : Host).place path = h.place path :=
  rfl

theorem makeAll_env (h : Host) (env : Table) (path : String) :
    ({ h with env := env } : Host).makeAll path = h.makeAll path := by
  simp only [makeAll, place_env]

theorem answerMaking_env (h : Host) (env : Table) (request : FileRequest) :
    ({ h with env := env } : Host).answerMaking request = h.answerMaking request := by
  have hMade (tree : FileTree) : (Host.mk env h.workDirectory tree).answer request =
      (Host.mk h.env h.workDirectory tree).answer request := answer_env ⟨h.env, h.workDirectory, tree⟩ env request
  unfold answerMaking
  simp only [answer_env, place_env]
  split
  · exact hMade _
  · exact hMade _
  · rfl

theorem serveBuiltin_env (h : Host) (env : Table) (request : FileRequest) :
    ({ h with env := env } : Host).serveBuiltin request =
      ((h.serveBuiltin request).1, { (h.serveBuiltin request).2 with env := env }) := by
  have hAbsolute (path : String) : ({ h with env := env } : Host).absolute path = h.absolute path := rfl
  unfold serveBuiltin
  by_cases hInvalid : isInvalid (subject request) = true
  · simp only [hInvalid, if_true]
  · simp only [hInvalid, makeAll_env, hAbsolute, answerMaking_env]
    cases request with
    | makeDirectory path =>
      generalize h.makeAll _ = reply
      cases reply <;> rfl
    | _ =>
      generalize h.answerMaking _ = reply
      cases reply <;> rfl

/-- Of the variables of the host, only the search path matters to where a program is found. -/
theorem start_env (programs : Programs) (h : Host) {env : Table} (hPath : env.find? "PATH" = h.env.find? "PATH")
    (canceled : Bool) (dir : String) (args : List String) (given : Table) :
    start programs { h with env := env } canceled dir args given = start programs h canceled dir args given := by
  have hProgram (name : String) : ({ h with env := env } : Host).programPath name = h.programPath name := by
    unfold programPath findOnPath?
    rw [hPath]
    rfl
  unfold start
  rw [hProgram]
  rfl

end Host

def World.without (key : String) (w : World) : World :=
  { w with
    host := { w.host with env := w.host.env.erase key }
    overlays := w.overlays.map (Table.erase key) }

/-- A variable with the value `1` that a second run does not have. -/
structure Hiding where
  key : String
  proper : Host.isVariable key "1" = true
  ne_path : key ≠ "PATH"
  ne_directory : key ≠ directoryVar
  overlay : Nat
  /-- The trace of the second run, if the variable is that for tracing. -/
  trace : Bytes

namespace Hiding

variable (H : Hiding)

def world (w : World) : World :=
  { w.without H.key with trace := if H.key = debugVar then H.trace else w.trace }

/-- The first run has the variable, its tables are in order, and its scope has not changed the variable. -/
structure Holds (overlays : List Overlay) (env : Table) (scope : Scope) : Prop where
  ordered : ∀ o ∈ overlays, Table.Ordered o
  set : lookupThrough (overlays.getD H.overlay []) env H.key = some "1"
  scope : scope.prior? H.key = none

/-- The worlds and scopes of which `Holds` is said. -/
def Sound (w : World) (scope : Scope) : Prop := H.Holds w.overlays w.host.env scope

variable {H} {w : World} {scope : Scope}

theorem Sound.of_tables (h : H.Sound w scope) {w' : World} (hSame : w'.tables = w.tables) : H.Sound w' scope := by
  obtain ⟨hOverlays, hEnv⟩ := Prod.mk.inj hSame
  unfold Sound
  rw [hOverlays, hEnv]
  exact h

theorem Sound.serve (h : H.Sound w scope) (storage : Storage) (request : FileRequest) :
    H.Sound (w.serve storage request).2 scope :=
  h.of_tables (World.tables_serve w storage request)

theorem overlay_world (w : World) (id : Nat) : (H.world w).overlay id = Table.erase H.key (w.overlay id) := by
  simp only [World.overlay, world, World.without, List.getD_eq_getElem?_getD, List.getElem?_map]
  cases w.overlays[id]? <;> rfl

theorem lookup_world (w : World) (id : Nat) {k : String} (hk : k ≠ H.key) :
    lookupThrough ((H.world w).overlay id) (H.world w).host.env k = lookupThrough (w.overlay id) w.host.env k := by
  have hEnv : (H.world w).host.env = w.host.env.erase H.key := rfl
  rw [lookupThrough, lookupThrough, overlay_world, hEnv, Table.find?_erase, Table.find?_erase, if_neg hk, if_neg hk]

theorem unset_world (w : World) (id : Nat) :
    lookupThrough ((H.world w).overlay id) (H.world w).host.env H.key = none := by
  have hEnv : (H.world w).host.env = w.host.env.erase H.key := rfl
  rw [lookupThrough, overlay_world, hEnv, Table.find?_erase, Table.find?_erase, if_pos rfl, if_pos rfl]
  rfl

theorem directory_world (v : Invoker) (w : World) : v.directory (H.world w) = v.directory w := by
  rw [Invoker.directory, Invoker.directory, overlay_world, Overlay.directory, Overlay.directory, Table.find?_erase,
    if_neg H.ne_directory.symm]

theorem setOverlay_world (w : World) (id : Nat) (o : Overlay) :
    (H.world w).setOverlay id (Table.erase H.key o) = H.world (w.setOverlay id o) := by
  simp [World.setOverlay, world, World.without, List.map_set]

theorem mem_overlay {P : Overlay → Prop} (hNil : P []) (h : ∀ o ∈ w.overlays, P o) (id : Nat) : P (w.overlay id) := by
  rw [World.overlay, List.getD_eq_getElem?_getD]
  cases hFind : w.overlays[id]? with
  | none => exact hNil
  | some o => exact h o (List.mem_of_getElem? hFind)

theorem Sound.setOverlay (h : H.Sound w scope) {scope' : Scope} (hScope : scope'.prior? H.key = none) {id : Nat}
    {o : Overlay} (ho : Table.Ordered o) (hFind : Table.find? H.key o = (w.overlay id).find? H.key) :
    H.Sound (w.setOverlay id o) scope' where
  ordered := by
    intro o' ho'
    rcases List.mem_or_eq_of_mem_set ho' with hMem | rfl
    · exact h.ordered o' hMem
    · exact ho
  set := by
    have hSame : ((w.overlays.set id o).getD H.overlay []).find? H.key =
        (w.overlays.getD H.overlay []).find? H.key := by
      rw [List.getD_eq_getElem?_getD, List.getD_eq_getElem?_getD, List.getElem?_set]
      by_cases hId : id = H.overlay
      · subst hId
        rw [if_pos rfl]
        split
        · simpa [World.overlay, List.getD_eq_getElem?_getD] using hFind
        · next hRange => simp [List.getElem?_eq_none (Nat.le_of_not_lt hRange)]
      · rw [if_neg hId]
    have hSet := h.set
    rw [lookupThrough] at hSet ⊢
    rw [← hSet]
    exact congrArg (fun found => found.or (w.host.env.find? H.key)) hSame
  scope := hScope

theorem processEnv_world (h : H.Sound w scope) (v : Invoker) (c : Command) :
    Host.Lacks H.key (v.processEnv w c) (v.processEnv (H.world w) c) := by
  have hOrdered : Table.Ordered (w.overlay v.overlay) := mem_overlay .nil h.ordered v.overlay
  rw [Invoker.processEnv, Invoker.processEnv, Host.extended_append, Host.extended_append, overlay_world]
  exact (Host.lacks_entries (Host.isVariable_name H.proper) hOrdered).extended c.env

theorem traced_world {v : Invoker} (p : Pipeline) (w : World) : v.traced p (H.world w) = H.world (v.traced p w) := by
  unfold Invoker.traced Invoker.flag
  by_cases hKey : H.key = debugVar
  · have hUnset : lookupThrough ((H.world w).overlay v.overlay) (H.world w).host.env debugVar = none :=
      hKey ▸ unset_world w v.overlay
    rw [hUnset, if_neg (by decide)]
    split
    · simp [world, World.without, hKey]
    · rfl
  · rw [lookup_world w v.overlay (Ne.symm hKey), directory_world]
    split
    · simp [world, World.without, hKey]
    · rfl

theorem unseen : World.Unseen H.world where
  serve w storage request := by
    obtain ⟨builtins, wrappers, inMemory, memory, host, overlays, input, output, errors, trace, mocks⟩ := w
    cases storage with
    | host =>
      obtain ⟨tree, hTree⟩ := host.serve_eq request
      simp only [World.serve, world, World.without, Host.serve_env, hTree]
    | shell =>
      cases inMemory with
      | true =>
        simp only [World.serve, world, World.without, if_true]
        cases World.serveMemory memory request <;> rfl
      | false =>
        obtain ⟨tree, hTree⟩ := host.serveBuiltin_eq request
        simp only [World.serve, world, World.without, Host.serveBuiltin_env, hTree, Bool.false_eq_true, if_false]
  isHeld w storage := by cases storage <;> rfl

end Hiding

end Pipework
