import Pipework.Proofs.Files.Sending
import Pipework.Proofs.Files.Shown

/-!
# Files that statements write to

A statement that sends bytes to a file adds them at its end or puts them in place of what the file held. After
any number of such statements the file holds what was sent last in place of the rest, and all that was added
since. That is what `cat` shows, and no other file is changed.
-/

namespace Pipework

/-- What a statement sends to a file. -/
structure Parcel where
  /-- What the file holds is kept. -/
  appends : Bool
  bytes : Bytes
deriving DecidableEq, Repr

namespace Parcel

/-- What a file that held `content` holds when the parcel has been sent to it. -/
def laid (content : Bytes) (x : Parcel) : Bytes := (if x.appends then content else []) ++ x.bytes

/-- What a file that held `content` holds when the parcels have been sent to it one after the other. -/
def pile (content : Bytes) (parcels : List Parcel) : Bytes := parcels.foldl laid content

theorem pile_of_appends {parcels : List Parcel} (h : ∀ x ∈ parcels, x.appends = true) (content : Bytes) :
    pile content parcels = content ++ parcels.flatMap bytes := by
  induction parcels generalizing content with
  | nil => simp [pile]
  | cons x parcels ih =>
    obtain ⟨hx, hRest⟩ := List.forall_mem_cons.mp h
    have hFirst : pile content (x :: parcels) = pile (content ++ x.bytes) parcels := by simp [pile, laid, hx]
    rw [hFirst, ih hRest, List.flatMap_cons, List.append_assoc]

theorem pile_concat (content : Bytes) (parcels : List Parcel) (x : Parcel) :
    pile content (parcels ++ [x]) = x.laid (pile content parcels) := by
  simp [pile]

/-- What was sent before a parcel that takes the place of the content does not matter. -/
theorem pile_of_truncates {x : Parcel} (h : x.appends = false) (content : Bytes) (before after : List Parcel) :
    pile content (before ++ x :: after) = pile x.bytes after := by
  simp [pile, laid, h]

end Parcel

namespace World

/-- A pipeline that ends without a fault sends the parcel to the file at `p`. -/
inductive Sends (p : Place) (x : Parcel) : World → World → Prop
  | pipeline {v : Invoker} {output : Output} {C : Calls} {mayCall : Prop} {pl : Pipeline} {phase : Invoker.Phase}
      {k : Nat} {crew : Crew C.State} (hk : k < pl.commands.length)
      (hSending : Crew.Sending v output C mayCall p x.appends k (.start pl.commands (v.openLine pl phase)) x.bytes crew)
      (hOver : crew.IsOver) (hVerdict : crew.verdict = none) : Sends p x phase.world crew.line.world

/-- Parcels are sent to the file at `p` one after the other. What happens in between leaves the files in memory
alone. -/
inductive Chain (p : Place) (w : World) : List Parcel → World → Prop
  | nil : Chain p w [] w
  | sends {parcels : List Parcel} {x : Parcel} {w₁ w₂ : World} (h : Chain p w parcels w₁) (hSends : Sends p x w₁ w₂) :
    Chain p w (parcels ++ [x]) w₂
  | between {parcels : List Parcel} {w₁ w₂ : World} (h : Chain p w parcels w₁) (hShelf : w₂.shelf = w₁.shelf) :
    Chain p w parcels w₂

variable {p : Place} {w w' : World} {parcels : List Parcel} {t : FileTree}

theorem Sends.becomes {x : Parcel} (h : Sends p x w w') (hShelf : w.shelf = (true, t)) (hWritable : t.Writable p) :
    ∃ t', w'.shelf = (true, t') ∧ t.Becomes p (x.laid (t.content p)) t' := by
  cases h with
  | pipeline hk hSending hOver hVerdict => exact hSending.becomes hk hOver hVerdict hShelf hWritable

/-- In the end the file holds the parcels one upon the other, and nothing else has changed. -/
theorem Chain.piles (h : Chain p w parcels w') (hShelf : w.shelf = (true, t)) (hWritable : t.Writable p) :
    ∃ t', w'.shelf = (true, t') ∧ t'.Writable p ∧ t'.content p = Parcel.pile (t.content p) parcels ∧
      (t.find? p ≠ none ∨ parcels ≠ [] → t'.find? p ≠ none) ∧ ∀ q, q ≠ p → t'.find? q = t.find? q := by
  -- The place stays writable, so that each pipeline may start from what the ones before have left.
  induction h with
  | nil => exact ⟨t, hShelf, hWritable, rfl, by simp, fun _ _ => rfl⟩
  | @sends parcels x w₁ w₂ h hSends ih =>
    obtain ⟨t₁, hShelf₁, hWritable₁, hContent, -, hElse⟩ := ih
    obtain ⟨t₂, hShelf₂, hBecomes⟩ := hSends.becomes hShelf₁ hWritable₁
    obtain ⟨y, hFile⟩ := hBecomes.here
    refine ⟨t₂, hShelf₂, hBecomes.writable, ?_, fun _ => by simp [hFile], ?_⟩
    · rw [hBecomes.content, hContent, Parcel.pile_concat]
    · intro q hq
      rw [hBecomes.elsewhere q hq, hElse q hq]
  | between h hSame ih =>
    obtain ⟨t', hShelf', hPiled⟩ := ih
    exact ⟨t', hSame.trans hShelf', hPiled⟩

end World

namespace Stage

theorem relay_host {st : Stage} {desk : Desk} {line : Line} (hSource : st.source = .host) (hOut : st.out = .output)
    (hLast : st.isLast = true) (hOutput : st.output = .host) :
    st.relay Filter.all desk line = .done (desk, some (line.world.input, none))
      { line with world := { line.world with output := line.world.output ++ line.world.input, input := [] } } := by
  have hFinite : (st.inputFeed desk line).cycle = [] := by simp [inputFeed, hSource, Feed.ofBytes]
  have hPour : st.pour line.world.input desk line = .done (desk, some (.full line.world.input))
      { line with world := { line.world with output := line.world.output ++ line.world.input } } := by
    unfold pour
    split
    · next hEmpty => rw [hEmpty, List.append_nil, ← hEmpty]
    · simp [deliver, hOut, hLast, hOutput]
  simp [relay, hFinite, scan, hSource, hPour, Delivery.full, Line.dropInput]

end Stage

namespace World

theorem Sends.of_speaks {C : Calls} {mayCall : Prop} {v : Invoker} {output : Output} {pl : Pipeline}
    {phase : Invoker.Phase} {c : Command} {start : Launch} {line line' : Line} {p : Place} {x : Parcel} {desk : Desk}
    (hp : pl.commands = [c]) (hAddresses : v.Addresses phase.world p x.appends c)
    (hLaunch : v.launch output 0 true c (v.openLine pl phase) = (.ok start, line))
    (hSpeaks : Speaks C mayCall start.stage (.ready start.task start.desk, line) x.bytes
      (.ready (.done (.ok ())) desk, line')) (hBoard : line'.board = (v.openLine pl phase).board) :
    Sends p x phase.world ((line'.world.closeAll desk.handles).releaseAll start.stage.readings) := by
  obtain ⟨hIndex, hLast, -⟩ := v.stage_launch output 0 true c (v.openLine pl phase) (by rw [hLaunch])
  have hSending := @Crew.Sending.finish v output C mayCall p x.appends 0 _ x.bytes _ [] [] _ (.ok ()) desk
    (hSpeaks.sending hp hAddresses hLaunch) rfl hIndex rfl
  have hk : 0 < pl.commands.length := by simp [hp]
  refine .pipeline hk hSending ⟨rfl, .inl rfl⟩ ?_
  have hVerdict : (line'.board.complete start.stage.isLast none).verdict = none := by
    rw [hBoard, hLast]
    exact Board.verdict_lone _ none
  exact congrArg (Option.map Failure.toFault) hVerdict

theorem input_serve (w : World) (storage : Storage) (request : FileRequest) :
    (w.serve storage request).2.input = w.input := by
  unfold serve
  cases storage with
  | host => rfl
  | shell =>
    dsimp only
    split
    · split <;> rfl
    · rfl

section Alone

variable {v : Invoker} {w : World} {t : FileTree} {name : String} (appends : Bool)
  (hShelf : w.shelf = (true, t)) (hWritable : t.Writable (Memory.place (Path.resolve (v.directory w) name)))

include hShelf hWritable

theorem sends_echo (words : List String) (hBuiltin : w.builtin? "echo" = some (.concurrent Builtin.echo)) :
    ∃ w', Sends (Memory.place (Path.resolve (v.directory w) name))
      ⟨appends, Builtin.line ⟨"echo" :: words, [], v.directory w, true⟩⟩ w w' := by
  let path := Path.resolve (v.directory w) name
  let c : Command := ⟨"echo" :: words, [], [⟨1, .file name, appends⟩]⟩
  let said : Bytes := Builtin.line ⟨"echo" :: words, [], v.directory w, true⟩
  let handle : Handle := ⟨.shell, path, appends, []⟩
  let phase : Invoker.Phase := ⟨w, .opened, false, false⟩
  let pl : Pipeline := ⟨[c], false, "", 1⟩
  let opened : Line := { v.openLine pl phase with world := (w.serve .shell (opening appends path)).2 }
  let written : Line := { opened with world := (opened.world.serve .shell (handle.writing said)).2 }
  obtain ⟨t', hOk, -, -⟩ := serve_opening hShelf hWritable appends
  have hFirst : (Wiring.initial .host).redirect .shell (v.directory w) ⟨1, .file name, appends⟩ w =
      (.ok ⟨.host, .nothing, none, .file 0, .errors, [handle], []⟩, opened.world) :=
    Wiring.redirect_eq (Prod.ext hOk rfl)
  have hLaunch := @Invoker.launch_of_redirectAll v .host 0 true c (v.openLine pl phase) _ _ _ hBuiltin
    (Wiring.redirectAll_of_redirect hFirst [])
  have hSpares : ∀ dir hostInput, Program.Spares (Builtin.echo ⟨"echo" :: words, [], dir, hostInput⟩) := by
    refine fun dir hostInput => ⟨rfl, ?_⟩
    intro answer
    cases answer <;> trivial
  have hAddresses : v.Addresses w (Memory.place path) appends c :=
    @Invoker.Addresses.redirection _ _ _ _ _ _ [] [] name hBuiltin hSpares rfl (by simp) (by simp) rfl
  let stage : Stage :=
    ⟨0, true, false, Invoker.located (v.directory w) c.render, .host, none, .file 0, .errors, [], .host, v.overlay,
      v.context⟩
  have hTells : Tells .tooDeep False stage
      (.ready (Builtin.echo ⟨"echo" :: words, [], v.directory w, true⟩) ⟨.nothing, [handle], []⟩, opened) said
      (.ready (.done (.ok ())) ⟨.nothing, [handle.written said], []⟩, written) :=
    @Tells.of_perform _ _ _ (.write .out said) none _ _ _ _ (fun _ _ _ _ w => .done (.ok "") w) Task.check rfl
      (by rintro filter ⟨⟩) rfl
  exact ⟨_, @Sends.of_speaks _ _ _ _ pl phase _ _ _ written _ _ _ rfl hAddresses hLaunch (.turn .start hTells) rfl⟩

theorem sends_tee (hName : name ≠ "-a") (hBuiltin : w.builtin? "tee" = some (.concurrent Builtin.tee)) :
    ∃ w', Sends (Memory.place (Path.resolve (v.directory w) name)) ⟨appends, w.input⟩ w w' := by
  let path := Path.resolve (v.directory w) name
  let c : Command := ⟨"tee" :: if appends then ["-a", name] else [name], [], []⟩
  let phase : Invoker.Phase := ⟨w, .opened, false, false⟩
  let pl : Pipeline := ⟨[c], false, "", 1⟩
  let line : Line := v.openLine pl phase
  let start : Launch := v.builtinLaunch .host 0 true c line (.concurrent Builtin.tee)
  let opened : Line := { line with world := (w.serve .shell (opening appends path)).2 }
  let copied : Line :=
    { opened with world := { opened.world with output := opened.world.output ++ opened.world.input, input := [] } }
  let closed : Line := { copied with world := (copied.world.serve .shell (.commit path opened.world.input)).2 }
  have hLaunch : v.launch .host 0 true c line = (.ok start, line) := v.launch_builtin .host 0 true hBuiltin rfl
  have hAddresses : v.Addresses w (Memory.place path) appends c := .tee hBuiltin rfl hName (by rintro r ⟨⟩) rfl
  obtain ⟨next, hTee, hNext⟩ := Builtin.tee_eq hName appends [] (v.directory w) true
  obtain ⟨t', hOk, -, -⟩ := serve_opening hShelf hWritable appends
  let nested : Nested := fun _ _ _ _ w => .done (.ok "") w
  have hOpen : Tells .tooDeep False start.stage (.ready start.task start.desk, line) []
      (.ready (Builtin.teeCopy path) start.desk, opened) := by
    have hTask : start.task = Program.act (.files .shell (opening appends path)) next := hTee
    have hOpened : next (w.serve .shell (opening appends path)).1 = Builtin.teeCopy path := by rw [hOk, hNext]
    rw [hTask, ← hOpened]
    exact @Tells.of_perform _ _ _ (.files .shell (opening appends path)) _ _ _ _ _ nested next rfl
      (by rintro filter ⟨⟩) rfl
  have hCopy : Tells .tooDeep False start.stage (.ready (Builtin.teeCopy path) start.desk, opened) opened.world.input
      (.ready (Builtin.teeClose path (opened.world.input, none)) start.desk, copied) :=
    @Tells.of_perform _ _ _ (.relay Filter.all) (opened.world.input, none) _ _ _ _ nested (Builtin.teeClose path) rfl
      (fun _ _ => rfl) (@Stage.relay_host start.stage start.desk opened rfl rfl rfl rfl)
  have hClose : Tells .tooDeep False start.stage
      (.ready (Builtin.teeClose path (opened.world.input, none)) start.desk, copied) []
      (.ready (.done (.ok ())) start.desk, closed) :=
    @Tells.of_perform _ _ _ (.files .shell (.commit path opened.world.input)) _ _ _ _ _ nested
      (fun _ => .done (.ok ())) rfl (by rintro filter ⟨⟩) rfl
  have hSpeaks : Speaks .tooDeep False start.stage (.ready start.task start.desk, line) w.input
      (.ready (.done (.ok ())) start.desk, closed) := by
    have hInput : w.input = [] ++ [] ++ opened.world.input ++ [] := by
      simp [opened, input_serve]
    rw [hInput]
    exact ((Speaks.start.turn hOpen).turn hCopy).turn hClose
  exact ⟨_, @Sends.of_speaks _ _ _ _ pl phase _ _ _ closed _ _ _ rfl hAddresses hLaunch hSpeaks rfl⟩

end Alone

/-- A file that parcels were sent to holds all of them after what it held, if all were appended, and else those
from the last one on that was not. Both ways to show the file give that, and no other file is changed. -/
theorem Chain.accumulates {p : Place} {w w' : World} {parcels : List Parcel} (hMemory : w.inMemory = true)
    (hWritable : w.memory.Writable p) (h : Chain p w parcels w') :
    w'.inMemory = true ∧
      ((∀ x ∈ parcels, x.appends = true) →
        w'.memory.content p = w.memory.content p ++ parcels.flatMap Parcel.bytes) ∧
      (∀ before x after, parcels = before ++ x :: after → x.appends = false → (∀ y ∈ after, y.appends = true) →
        w'.memory.content p = (x :: after).flatMap Parcel.bytes) ∧
      (w.memory.find? p ≠ none ∨ parcels ≠ [] →
        w'.memory.read? p = some (w'.memory.content p) ∧ w'.Shows p (w'.memory.content p)) ∧
      ∀ q, q ≠ p → w'.memory.find? q = w.memory.find? q := by
  have hShelf : w.shelf = (true, w.memory) := shelf_eq_iff.mpr ⟨hMemory, rfl⟩
  obtain ⟨t', hShelf', hWritable', hContent, hThere, hElse⟩ := h.piles hShelf hWritable
  obtain ⟨hMemory', rfl⟩ := shelf_eq_iff.mp hShelf'
  refine ⟨hMemory', ?_, ?_, ?_, hElse⟩
  · intro hAppends
    rw [hContent, Parcel.pile_of_appends hAppends]
  · intro before x after hParcels hTruncates hAppends
    rw [hContent, hParcels, Parcel.pile_of_truncates hTruncates, Parcel.pile_of_appends hAppends, List.flatMap_cons]
  · intro hSome
    obtain ⟨data, y, hFile⟩ := hWritable'.file (hThere hSome)
    have hRead : w'.memory.read? p = some data := by simp [FileTree.read?, hFile]
    have hData : w'.memory.content p = data := by simp [FileTree.content, hRead]
    rw [hData]
    exact ⟨hRead, shows_of_file hShelf' hFile⟩

/-- A world with the builtins on text, no files and an input of one letter. -/
def letters (dir : String) : World :=
  { World.bench [(directoryVar, dir)] with builtins := Builtin.text ++ Builtin.standard, input := [98] }

/-- After `echo a > f` in one directory and `tee -a ../f` in another. -/
theorem Chain.accumulates_letters :
    ∃ w', (letters "/").inMemory = true ∧ (letters "/").memory.Writable ["f"] ∧
      Chain ["f"] (letters "/") [⟨false, [97, 10]⟩, ⟨true, [98]⟩] w' ∧ w'.memory.content ["f"] = [97, 10, 98] := by
  have hWritable : (letters "/").memory.Writable ["f"] := by
    refine .inr ⟨rfl, ?_⟩
    intro q hPrefix hOther
    obtain rfl : q = [] := by simpa [List.prefix_cons_iff, hOther] using hPrefix
    rfl
  have hFirst : Memory.place (Path.resolve (Invoker.bench.directory (letters "/")) "f") = ["f"] := by decide +kernel
  obtain ⟨w₁, hEcho⟩ := sends_echo false rfl (hFirst.symm ▸ hWritable) ["a"] rfl
  rw [hFirst] at hEcho
  obtain ⟨t₁, hShelf₁, hBecomes⟩ := hEcho.becomes rfl hWritable
  let w₂ : World := { letters "/d" with memory := t₁ }
  have hSecond : Memory.place (Path.resolve "/d" "../f") = ["f"] := by decide +kernel
  have hName : Memory.place (Path.resolve (Invoker.bench.directory w₂) "../f") = ["f"] := hSecond
  obtain ⟨w', hTee⟩ := sends_tee (w := w₂) true rfl (hName.symm ▸ hBecomes.writable) (by decide) rfl
  rw [hName] at hTee
  have hSame : w₂.shelf = w₁.shelf := hShelf₁.symm
  have hChain : Chain ["f"] (letters "/") [⟨false, [97, 10]⟩, ⟨true, [98]⟩] w' :=
    ((Chain.nil.sends hEcho).between hSame).sends hTee
  refine ⟨w', rfl, hWritable, hChain, ?_⟩
  exact (Chain.accumulates rfl hWritable hChain).2.2.1 [] ⟨false, [97, 10]⟩ [⟨true, [98]⟩] rfl rfl (by simp)

end World

end Pipework
