import Pipework.Proofs.Sheet.Opening
import Pipework.Proofs.Sheet.Row

/-!
# Copies

`tee` opens all of its files before it copies anything, and what it copies is in the files when they have been closed.
`cat` then puts the files together again. If one of the files of `tee` cannot be opened, or one of those of `cat` is
missing, what came before it stands.
-/

namespace Pipework

/-- The command that copies its input to the files `names`, at their end if `appends`. -/
def Command.tee (appends : Bool) (names : List String) : Command :=
  ⟨"tee" :: (if appends then "-a" :: names else names), [], []⟩

def Command.catAll (names : List String) : Command := ⟨"cat" :: names, [], []⟩

namespace Builtin

open Memory

variable {t t₁ : FileTree} {x out : Bytes} {appends : Bool} {fault : Fault}

theorem answer_opening (path : String) :
    (⟨t, x, out⟩ : Sheet).answer? true (.files .shell (if appends then .append path else .create path)) =
      match writer appends t path with
      | .ok t' => some (.ok .nothing, ⟨t', x, out⟩)
      | .error fault => some (.error fault, ⟨t, x, out⟩) := by
  cases appends with
  | true =>
    unfold Sheet.answer? writer World.serveMemory
    simp only [if_true]
    cases Memory.append t path <;> rfl
  | false =>
    unfold Sheet.answer? writer World.serveMemory
    simp only [Bool.false_eq_true, if_false]
    cases Memory.create t path <;> rfl

theorem on_closeAll (data : Bytes) (paths : List String) :
    (closeAll data paths).on true ⟨t, x, out⟩ = some (.ok (), ⟨commitAll data paths t, x, out⟩) := by
  induction paths generalizing t with
  | nil => rfl
  | cons path paths ih =>
    refine (Task.on_bind_ok (Task.on_perform rfl) _).trans ?_
    exact ih

/-- Files that can be opened are opened one after the other, and what comes after them goes on from there. -/
theorem on_openAll_append {opened before rest : List String} (h : writers appends t before = .ok t₁) :
    (openAll appends opened (before ++ rest)).on true ⟨t, x, out⟩ =
      (openAll appends (opened ++ before) rest).on true ⟨t₁, x, out⟩ := by
  induction before generalizing t opened with
  | nil =>
    obtain rfl : t = t₁ := Except.ok.inj h
    rw [List.append_nil, List.nil_append]
  | cons path before ih =>
    rw [writers, List.foldlM_cons] at h
    cases hWriter : writer appends t path with
    | error fault =>
      rw [hWriter] at h
      cases h
    | ok t' =>
      rw [hWriter] at h
      have hAnswer := @answer_opening t x out appends path
      rw [hWriter] at hAnswer
      refine (Task.on_bind_ok (Task.on_perform hAnswer) _).trans ?_
      rw [show opened ++ path :: before = opened ++ [path] ++ before by simp]
      exact ih h

theorem on_openAll {paths : List String} (h : writers appends t paths = .ok t₁) :
    (openAll appends [] paths).on true ⟨t, x, out⟩ = some (.ok (), ⟨t₁, x, out⟩) := by
  have hAll := @on_openAll_append t t₁ x out appends [] paths [] h
  rw [List.append_nil] at hAll
  exact hAll

theorem on_openAll_error {before after : List String} {bad : String} (h : writers appends t before = .ok t₁)
    (hBad : writer appends t₁ bad = .error fault) :
    (openAll appends [] (before ++ bad :: after)).on true ⟨t, x, out⟩ =
      some (.error (.about "tee" fault), ⟨commitAll [] before t₁, x, out⟩) := by
  have hAnswer := @answer_opening t₁ x out appends bad
  rw [hBad] at hAnswer
  rw [on_openAll_append h, List.nil_append]
  exact (Task.on_bind_ok (Task.on_perform hAnswer) _).trans (Task.on_bind_ok (on_closeAll [] before) _)

theorem tee_eq_openAll (names : List String) (hFlag : appends = false → names.head? ≠ some "-a") (env : Table)
    (dir : String) (hostInput : Bool) :
    tee ⟨"tee" :: (if appends then "-a" :: names else names), env, dir, hostInput⟩ =
      (do
        openAll appends [] (names.map (Path.resolve dir))
        let copied ← Task.perform (.relay Filter.all)
        closeAll copied.1 (names.map (Path.resolve dir))
        Task.check copied.2 : Task Unit) := by
  cases appends with
  | true => rfl
  | false =>
    unfold tee
    simp only [Bool.false_eq_true, if_false, List.tail_cons]
    split
    · exact absurd rfl (hFlag rfl)
    · rfl

/-- `tee` copies its input to its output and to the files, if all of them can be opened. -/
theorem on_tee {names : List String} (hFlag : appends = false → names.head? ≠ some "-a") (env : Table) {dir : String}
    (hostInput : Bool) (h : writers appends t (names.map (Path.resolve dir)) = .ok t₁) :
    (tee ⟨"tee" :: (if appends then "-a" :: names else names), env, dir, hostInput⟩).on true ⟨t, x, []⟩ =
      some (.ok (), ⟨commitAll x (names.map (Path.resolve dir)) t₁, [], x⟩) := by
  have hRelay : (⟨t₁, x, []⟩ : Sheet).answer? true (.relay Filter.all) = some ((x, none), ⟨t₁, [], x⟩) := by
    simp only [Sheet.answer?, Filter.apply_all, List.nil_append]
  rw [tee_eq_openAll names hFlag, Task.on_bind_ok (on_openAll h), Task.on_bind_ok (Task.on_perform hRelay),
    Task.on_bind_ok (on_closeAll x _)]
  rfl

theorem on_tee_error {before after : List String} {bad dir : String}
    (hFlag : appends = false → (before ++ bad :: after).head? ≠ some "-a") (env : Table) (hostInput : Bool)
    (h : writers appends t (before.map (Path.resolve dir)) = .ok t₁)
    (hBad : writer appends t₁ (Path.resolve dir bad) = .error fault) :
    (tee ⟨"tee" :: (if appends then "-a" :: (before ++ bad :: after) else before ++ bad :: after), env, dir,
        hostInput⟩).on true ⟨t, x, []⟩ =
      some (.error (.about "tee" fault), ⟨commitAll [] (before.map (Path.resolve dir)) t₁, x, []⟩) := by
  rw [tee_eq_openAll _ hFlag, List.map_append, List.map_cons]
  exact Task.on_bind_error (on_openAll_error h hBad) _

theorem on_catFile {p : Proc} {name : String} (hName : name ≠ "-") (h : (t.read? (place (p.path name))).isSome = true) :
    (catFile p name).on true ⟨t, x, out⟩ = some (.ok (), ⟨t, x, out ++ t.content (place (p.path name))⟩) := by
  obtain ⟨data, hRead⟩ := Option.isSome_iff_exists.mp h
  have hOpen : Memory.open? t (p.path name) = .ok data := by
    unfold FileTree.read? at hRead
    unfold Memory.open?
    split at hRead
    · next hFile =>
      cases hRead
      rw [hFile]
    · cases hRead
  have hAnswer : (⟨t, x, out⟩ : Sheet).answer? true (.files .shell (.read (p.path name))) =
      some (.ok (.ofBytes data), ⟨t, x, out⟩) := by
    simp only [Sheet.answer?, World.serveMemory, hOpen, Except.map, if_true]
  unfold catFile
  rw [if_neg hName, Task.on_bind_ok (Task.on_perform hAnswer), FileTree.content, hRead]
  exact Task.on_pour data _

theorem on_catFile_missing {p : Proc} {name : String} (hName : name ≠ "-") (h : t.find? (place (p.path name)) = none) :
    (catFile p name).on true ⟨t, x, out⟩ =
      some (.error (.about "cat" (.about (subject "open" (p.path name)) .fileMissing)), ⟨t, x, out⟩) := by
  have hAnswer : (⟨t, x, out⟩ : Sheet).answer? true (.files .shell (.read (p.path name))) =
      some (.error (.about (subject "open" (p.path name)) .fileMissing), ⟨t, x, out⟩) := by
    simp only [Sheet.answer?, World.serveMemory, Memory.open?, h, Except.map, if_true]
  unfold catFile
  rw [if_neg hName, Task.on_bind_ok (Task.on_perform hAnswer)]
  rfl

/-- Files that are there are shown one after the other, and what comes after them goes on from there. -/
theorem on_catFiles_append {p : Proc} {names rest : List String} (hNames : "-" ∉ names)
    (h : ∀ name ∈ names, (t.read? (place (p.path name))).isSome = true) :
    (catFiles p (names ++ rest)).on true ⟨t, x, out⟩ =
      (catFiles p rest).on true ⟨t, x, out ++ names.flatMap fun name => t.content (place (p.path name))⟩ := by
  induction names generalizing out with
  | nil => rw [List.flatMap_nil, List.append_nil, List.nil_append]
  | cons name names ih =>
    obtain ⟨hHere, hRest⟩ := List.forall_mem_cons.mp h
    rw [List.mem_cons, not_or] at hNames
    refine (Task.on_bind_ok (on_catFile (Ne.symm hNames.1) hHere) _).trans ?_
    rw [List.flatMap_cons, ← List.append_assoc]
    exact ih hNames.2 hRest

theorem on_cat {p : Proc} {names : List String} (hArgs : p.args = "cat" :: names) (hSome : names ≠ [])
    (hNames : "-" ∉ names) (h : ∀ name ∈ names, (t.read? (place (p.path name))).isSome = true) :
    (cat p).on true ⟨t, x, []⟩ = some (.ok (), ⟨t, x, names.flatMap fun name => t.content (place (p.path name))⟩) := by
  have hCat : cat p = catFiles p (names ++ []) := by
    rw [List.append_nil, cat, hArgs, List.tail_cons]
    cases names with
    | nil => exact absurd rfl hSome
    | cons name names => rfl
  rw [hCat, on_catFiles_append hNames h]
  rfl

theorem on_cat_missing {p : Proc} {before after : List String} {bad : String}
    (hArgs : p.args = "cat" :: (before ++ bad :: after)) (hBefore : "-" ∉ before) (hBad : bad ≠ "-")
    (h : ∀ name ∈ before, (t.read? (place (p.path name))).isSome = true)
    (hMissing : t.find? (place (p.path bad)) = none) :
    (cat p).on true ⟨t, x, []⟩ =
      some (.error (.about "cat" (.about (subject "open" (p.path bad)) .fileMissing)),
        ⟨t, x, before.flatMap fun name => t.content (place (p.path name))⟩) := by
  have hCat : cat p = catFiles p (before ++ bad :: after) := by
    rw [cat, hArgs, List.tail_cons]
    cases before <;> rfl
  rw [hCat, on_catFiles_append hBefore h]
  exact Task.on_bind_error (on_catFile_missing hBad hMissing) _

end Builtin

namespace Invoker

open Memory

variable {v : Invoker} {w : World} {t t₁ : FileTree} {x : Bytes} {appends : Bool} {names before after : List String}
  {bad : String} {fault : Fault}

/-- The path that `name` stands for in the directory that is in force. -/
def pathOf (v : Invoker) (w : World) (name : String) : String := Path.resolve (v.directory w) name

def placeOf (v : Invoker) (w : World) (name : String) : Place := place (v.pathOf w name)

theorem map_placeOf (names : List String) : (names.map (v.pathOf w)).map place = names.map (v.placeOf w) :=
  List.map_map

section Does

theorem does_in_memory {task : Proc → Task Unit} {c : Command} {s s' : Sheet} (result : Except Fault Unit)
    (hMemory : w.inMemory = true) (hBare : c.redirections = [])
    (hBuiltin : w.builtin? (c.args.headD "") = some (.concurrent task))
    (h : ∀ hostInput, (task ⟨c.args, c.env, v.directory w, hostInput⟩).on true s = some (result, s')) :
    v.Does w c s (endFault result) s' := by
  refine ⟨hBare, _, hBuiltin, rfl, fun hostInput => ⟨result, ?_, rfl⟩⟩
  rw [hMemory]
  exact h hostInput

variable (hMemory : w.inMemory = true) (hTee : w.builtin? "tee" = some (.concurrent Builtin.tee))
  (hCat : w.builtin? "cat" = some (.concurrent Builtin.cat))

include hMemory

include hTee in
theorem does_tee (hFlag : appends = false → names.head? ≠ some "-a")
    (h : writers appends t (names.map (v.pathOf w)) = .ok t₁) :
    v.Does w (.tee appends names) ⟨t, x, []⟩ none ⟨commitAll x (names.map (v.pathOf w)) t₁, [], x⟩ :=
  does_in_memory (.ok ()) hMemory rfl hTee fun hostInput => Builtin.on_tee hFlag [] hostInput h

include hTee in
theorem does_tee_error (hFlag : appends = false → (before ++ bad :: after).head? ≠ some "-a")
    (h : writers appends t (before.map (v.pathOf w)) = .ok t₁)
    (hBad : writer appends t₁ (v.pathOf w bad) = .error fault) :
    v.Does w (.tee appends (before ++ bad :: after)) ⟨t, x, []⟩ (some (.about "tee" fault))
      ⟨commitAll [] (before.map (v.pathOf w)) t₁, x, []⟩ :=
  does_in_memory (.error _) hMemory rfl hTee fun hostInput => Builtin.on_tee_error hFlag [] hostInput h hBad

include hCat in
theorem does_catAll (hSome : names ≠ []) (hNames : "-" ∉ names)
    (h : ∀ name ∈ names, (t.read? (v.placeOf w name)).isSome = true) :
    v.Does w (.catAll names) ⟨t, x, []⟩ none ⟨t, x, names.flatMap fun name => t.content (v.placeOf w name)⟩ :=
  does_in_memory (.ok ()) hMemory rfl hCat fun _ => Builtin.on_cat rfl hSome hNames h

include hCat in
theorem does_catAll_missing (hBefore : "-" ∉ before) (hBad : bad ≠ "-")
    (h : ∀ name ∈ before, (t.read? (v.placeOf w name)).isSome = true) (hMissing : t.find? (v.placeOf w bad) = none) :
    v.Does w (.catAll (before ++ bad :: after)) ⟨t, x, []⟩
      (some (.about "cat" (.about (subject "open" (v.pathOf w bad)) .fileMissing)))
      ⟨t, x, before.flatMap fun name => t.content (v.placeOf w name)⟩ :=
  does_in_memory (.error _) hMemory rfl hCat fun _ => Builtin.on_cat_missing rfl hBefore hBad h hMissing

end Does

/-- The input of a pipeline that ends in `tee` and files at different places is output and copied to the files, each of
which is there or can be made when its turn to be opened comes; a `cat` of the files then outputs all that they hold. If
a file cannot be opened, nothing is output, and those opened before it hold what they held or nothing. A `cat` outputs
what is in the files before the first that is missing. Nothing else changes in memory, apart from directories that are
made. -/
theorem copies_exactly (v : Invoker) (nested : Nested) {output : Output} {phase : Phase} {p : Pipeline}
    {front : List Command} {t : FileTree} {x : Bytes} (hOutput : output ≠ .consumer)
    (hMemory : phase.world.inMemory = true) (hTee : phase.world.builtin? "tee" = some (.concurrent Builtin.tee))
    (hCat : phase.world.builtin? "cat" = some (.concurrent Builtin.cat))
    (hFront : v.Row phase.world front phase.world.memory phase.world.input t x) :
    (∀ appends names, (appends = false → names.head? ≠ some "-a") → (names.map (v.placeOf phase.world)).Nodup →
      OpenInTurn appends t (names.map (v.pathOf phase.world)) → p.commands = front ++ [.tee appends names] →
      ∃ phase', v.runPipeline nested output p phase = .done (none, output.captured x) phase' ∧
        phase'.world.output = phase.world.output ++ output.printed x ∧
        t.Laid (names.map (v.placeOf phase.world)) (fun q => t.kept appends q ++ x) phase'.world.memory ∧
        ∀ p' : Pipeline, names ≠ [] → "-" ∉ names → p'.commands = [.catAll names] →
          ∃ phase'', v.runPipeline nested output p' phase' =
              .done (none, output.captured
                (names.flatMap fun name => t.kept appends (v.placeOf phase.world name) ++ x)) phase'' ∧
            phase''.world.output = phase'.world.output ++ output.printed
              (names.flatMap fun name => t.kept appends (v.placeOf phase.world name) ++ x) ∧
            phase''.world.memory = phase'.world.memory) ∧
    (∀ appends before bad after t₁ fault, (appends = false → (before ++ bad :: after).head? ≠ some "-a") →
      (before.map (v.placeOf phase.world)).Nodup → OpenInTurn appends t (before.map (v.pathOf phase.world)) →
      writers appends t (before.map (v.pathOf phase.world)) = .ok t₁ →
      writer appends t₁ (v.pathOf phase.world bad) = .error fault →
      p.commands = front ++ [.tee appends (before ++ bad :: after)] →
      ∃ phase', v.runPipeline nested output p phase =
          .done (some (v.reported phase.world (.tee appends (before ++ bad :: after)) (.about "tee" fault)), [])
            phase' ∧
        phase'.world.output = phase.world.output ∧
        t.Laid (before.map (v.placeOf phase.world)) (t.kept appends) phase'.world.memory) ∧
    (∀ before bad after, "-" ∉ before → bad ≠ "-" →
      (∀ name ∈ before, (t.read? (v.placeOf phase.world name)).isSome = true) →
      t.find? (v.placeOf phase.world bad) = none → p.commands = front ++ [.catAll (before ++ bad :: after)] →
      ∃ phase', v.runPipeline nested output p phase =
          .done (some (v.reported phase.world (.catAll (before ++ bad :: after))
              (.about "cat" (.about (subject "open" (v.pathOf phase.world bad)) .fileMissing))),
            output.captured (before.flatMap fun name => t.content (v.placeOf phase.world name))) phase' ∧
        phase'.world.output = phase.world.output ++
          output.printed (before.flatMap fun name => t.content (v.placeOf phase.world name)) ∧
        phase'.world.memory = t) := by
  refine ⟨?_, ?_, ?_⟩
  · intro appends names hFlag hNodup hOpen hp
    rw [← map_placeOf] at hNodup
    obtain ⟨t₁, hOpened, hLaid⟩ := writers_laid hNodup hOpen
    obtain ⟨phase', hRun, hFiles, hPrinted, hAside⟩ :=
      runPipeline_row nested hp hOutput hFront (does_tee hMemory hTee hFlag hOpened)
    have hClosed := commitAll_places hNodup hLaid x
    rw [map_placeOf, ← hFiles] at hClosed
    refine ⟨phase', hRun, hPrinted, hClosed, fun p' hSome hNames hp' => ?_⟩
    have hThere : ∀ name ∈ names, (phase'.world.memory.read? (v.placeOf phase.world name)).isSome = true := by
      intro name hName
      obtain ⟨e, hFile⟩ := hClosed.files _ (List.mem_map_of_mem hName)
      simp [FileTree.read?, hFile]
    have hShown : (names.flatMap fun name => phase'.world.memory.content (v.placeOf phase.world name)) =
        names.flatMap fun name => t.kept appends (v.placeOf phase.world name) ++ x :=
      List.flatMap_congr fun name hName => hClosed.content (List.mem_map_of_mem hName)
    have hDoes := (does_catAll (x := phase'.world.input) hMemory hCat hSome hNames hThere).congr hAside
    have hAlone : p'.commands = [] ++ [.catAll names] := hp'
    obtain ⟨phase'', hRun', hFiles', hPrinted', -⟩ := runPipeline_row nested hAlone hOutput .nil hDoes
    rw [hShown] at hRun' hPrinted'
    exact ⟨phase'', hRun', hPrinted', hFiles'⟩
  · intro appends before bad after t₁ fault hFlag hNodup hOpen hOpened hBad hp
    rw [← map_placeOf] at hNodup
    obtain ⟨t₂, hOpened', hLaid⟩ := writers_laid hNodup hOpen
    obtain rfl : t₁ = t₂ := Except.ok.inj (hOpened.symm.trans hOpened')
    obtain ⟨phase', hRun, hFiles, hPrinted, -⟩ :=
      runPipeline_row nested hp hOutput hFront (does_tee_error hMemory hTee hFlag hOpened hBad)
    have hClosed := (commitAll_places hNodup hLaid []).congr fun q _ => List.append_nil _
    rw [map_placeOf, ← hFiles] at hClosed
    have hNothing : output.captured [] = [] ∧ output.printed [] = [] := by
      unfold Output.captured Output.printed
      exact ⟨ite_self [], ite_self []⟩
    rw [hNothing.1] at hRun
    rw [hNothing.2, List.append_nil] at hPrinted
    exact ⟨phase', hRun, hPrinted, hClosed⟩
  · intro before bad after hBefore hBad hThere hMissing hp
    obtain ⟨phase', hRun, hFiles, hPrinted, -⟩ :=
      runPipeline_row nested hp hOutput hFront (does_catAll_missing hMemory hCat hBefore hBad hThere hMissing)
    exact ⟨phase', hRun, hPrinted, hFiles⟩

/-- A world with the builtins on text, one file and an input of two letters. -/
def lettered : Phase :=
  ⟨{ World.bench [] with
      builtins := Builtin.text ++ Builtin.standard, memory := ⟨[(["a"], .file [1] false)]⟩, input := [104, 105] },
    .opened, false, false⟩

theorem copies_exactly_lettered :
    (∃ phase' phase'', Invoker.bench.runPipeline (nestedRun [] 0) .capture ⟨[.tee false ["a", "d/b"]], false, "", 1⟩
        lettered = .done (none, [104, 105]) phase' ∧
      phase'.world.memory.content ["a"] = [104, 105] ∧ phase'.world.memory.content ["d", "b"] = [104, 105] ∧
      Invoker.bench.runPipeline (nestedRun [] 0) .capture ⟨[.catAll ["a", "d/b"]], false, "", 2⟩ phase' =
        .done (none, [104, 105, 104, 105]) phase'') ∧
    (∃ fault phase', Invoker.bench.runPipeline (nestedRun [] 0) .capture ⟨[.tee true ["a", "a/b"]], false, "", 1⟩
        lettered = .done (some fault, []) phase' ∧ phase'.world.memory.content ["a"] = [1]) ∧
    ∃ fault phase', Invoker.bench.runPipeline (nestedRun [] 0) .capture ⟨[.catAll ["a", "c", "a"]], false, "", 1⟩
        lettered = .done (some fault, [1]) phase' := by
  have hPath (name : String) : Invoker.bench.pathOf lettered.world name = name := by
    simp [pathOf, Path.resolve, show Invoker.bench.directory lettered.world = "" from rfl]
  have hA : Invoker.bench.placeOf lettered.world "a" = ["a"] := by decide +kernel
  have hB : Invoker.bench.placeOf lettered.world "d/b" = ["d", "b"] := by decide +kernel
  have hC : Invoker.bench.placeOf lettered.world "c" = ["c"] := by decide +kernel
  have hOpenA : lettered.world.memory.Openable (place "a") := .inl ⟨[1], false, by decide +kernel⟩
  have hOpenB : lettered.world.memory.Openable (place "d/b") := by
    have hPlace : place "d/b" = ["d", "b"] := by decide +kernel
    rw [hPlace]
    refine .inr ⟨rfl, fun q hPrefix hOther => ?_⟩
    obtain rfl | ⟨_, rfl, rfl | rfl⟩ : q = [] ∨ ∃ r, q = "d" :: r ∧ (r = [] ∨ r = ["b"]) := by
      simpa [List.prefix_cons_iff] using hPrefix
    · exact .inr rfl
    · exact .inl rfl
    · exact absurd rfl hOther
  have hBoth : OpenInTurn false lettered.world.memory (["a", "d/b"].map (Invoker.bench.pathOf lettered.world)) := by
    simp only [List.map_cons, List.map_nil, hPath]
    exact openInTurn_of_apart (by simp [hOpenA, hOpenB]) (by decide +kernel)
  have hOne : OpenInTurn true lettered.world.memory (["a"].map (Invoker.bench.pathOf lettered.world)) := by
    simp only [List.map_cons, List.map_nil, hPath]
    exact openInTurn_of_apart (by simp [hOpenA]) (List.pairwise_singleton _ _)
  let copy : Pipeline := ⟨[.tee false ["a", "d/b"]], false, "", 1⟩
  let blocked : Pipeline := ⟨[.tee true ["a", "a/b"]], false, "", 1⟩
  let shown : Pipeline := ⟨[.catAll ["a", "c", "a"]], false, "", 1⟩
  have hRow : Invoker.bench.Row lettered.world [] lettered.world.memory lettered.world.input lettered.world.memory
      lettered.world.input := .nil
  have hCapture : Output.capture ≠ .consumer := by decide
  obtain ⟨hCopies, -, -⟩ := @copies_exactly _ (nestedRun [] 0) _ lettered copy [] _ _ hCapture rfl rfl rfl hRow
  obtain ⟨-, hBlocked, -⟩ := @copies_exactly _ (nestedRun [] 0) _ lettered blocked [] _ _ hCapture rfl rfl rfl hRow
  obtain ⟨-, -, hMissing⟩ := @copies_exactly _ (nestedRun [] 0) _ lettered shown [] _ _ hCapture rfl rfl rfl hRow
  refine ⟨?_, ?_, ?_⟩
  · obtain ⟨phase', hRun, -, hLaid, hShow⟩ := hCopies false ["a", "d/b"] (by decide) (by simp [hA, hB]) hBoth rfl
    obtain ⟨phase'', hRun', -, -⟩ := hShow ⟨[.catAll ["a", "d/b"]], false, "", 2⟩ (by decide) (by decide) rfl
    refine ⟨phase', phase'', hRun, ?_, ?_, hRun'⟩
    · exact hLaid.content (by simp [hA])
    · exact hLaid.content (by simp [hB])
  · obtain ⟨phase', hRun, -, hLaid⟩ := hBlocked true ["a"] "a/b" [] _ _ (by decide) (by simp) hOne rfl rfl rfl
    exact ⟨_, phase', hRun, hLaid.content (by simp [hA])⟩
  · have hThere : (lettered.world.memory.read? (Invoker.bench.placeOf lettered.world "a")).isSome = true := by
      rw [hA]
      rfl
    obtain ⟨phase', hRun, -⟩ :=
      hMissing ["a"] "c" ["a"] (by decide) (by decide) (by simpa using hThere) (by rw [hC]; rfl) rfl
    exact ⟨_, phase', hRun⟩

end Invoker

end Pipework
