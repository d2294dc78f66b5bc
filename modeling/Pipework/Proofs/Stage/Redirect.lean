import Pipework.Proofs.Files.Address
import Pipework.Proofs.Script.WellFormed
import Pipework.Proofs.Stage.Refusal

/-!
# Where redirections lead

Redirections are applied one after the other, each to the streams as those before it have left them. Where a
stream leads in the end can be told without doing so: the last redirection of the stream decides, and if it
duplicates an output, the question is where that output led before. Meanwhile every file that is named is opened
once, in the order of the list, also if a later redirection takes its place.
-/

namespace Pipework

namespace World

/-- Asks `requests` of the files of `storage`, one after the other. -/
def serveAll (w : World) (storage : Storage) (requests : List FileRequest) : World :=
  requests.foldl (fun w request => (w.serve storage request).2) w

def Grants (w : World) (storage : Storage) (requests : List FileRequest) : Prop :=
  ∀ before request after, requests = before ++ request :: after →
    ∃ feed, ((w.serveAll storage before).serve storage request).1 = .ok feed

variable (w : World) (storage : Storage)

@[simp] theorem serveAll_nil : w.serveAll storage [] = w := rfl

@[simp] theorem serveAll_append (requests more : List FileRequest) :
    w.serveAll storage (requests ++ more) = (w.serveAll storage requests).serveAll storage more := by
  simp [serveAll]

@[simp] theorem serveAll_singleton (request : FileRequest) :
    w.serveAll storage [request] = (w.serve storage request).2 := rfl

variable {storage}

theorem closeAll_eq {handles : List Handle} (h : ∀ handle ∈ handles, handle.storage = storage) :
    w.closeAll handles = w.serveAll storage (handles.map Handle.closing) := by
  induction handles generalizing w with
  | nil => rfl
  | cons handle handles ih =>
    obtain ⟨hFirst, hRest⟩ := List.forall_mem_cons.mp h
    have hCons : w.closeAll (handle :: handles) = (w.serve handle.storage handle.closing).2.closeAll handles := rfl
    rw [hCons, ih _ hRest, hFirst]
    rfl

theorem releaseAll_eq_serveAll {readings : List Reading} (h : ∀ r ∈ readings, r.storage = storage) :
    w.releaseAll readings = w.serveAll storage (readings.map Reading.closing) := by
  induction readings generalizing w with
  | nil => rfl
  | cons r readings ih =>
    obtain ⟨hFirst, hRest⟩ := List.forall_mem_cons.mp h
    have hCons : w.releaseAll (r :: readings) = (w.serve r.storage r.closing).2.releaseAll readings := rfl
    rw [hCons, ih _ hRest, hFirst]
    rfl

end World

namespace Redirection

/-- What a script can ask for, as `WellFormed.legal` shows: a standard stream is led to a file or to nothing, and an
output also to where an output leads. -/
structure Legal (r : Redirection) : Prop where
  standard : r.fd = 0 ∨ r.fd = 1 ∨ r.fd = 2
  input : r.fd = 0 → ∀ m, r.target ≠ .fd m
  duplicate : ∀ m, r.target = .fd m → m = 1 ∨ m = 2

theorem WellFormed.legal {r : Redirection} (h : r.WellFormed) : r.Legal :=
  ⟨h.standard, fun hInput => (h.input hInput).2, fun m hTarget => (h.duplicate m hTarget).1⟩

theorem Legal.output {fd : Int} {target : Target} (append : Bool) (hFd : fd = 1 ∨ fd = 2)
    (hTarget : ∀ m, target = .fd m → m = 1 ∨ m = 2) : Legal ⟨fd, target, append⟩ where
  standard := .inr hFd
  input := fun hInput => by
    obtain rfl : fd = 0 := hInput
    omega
  duplicate := hTarget

/-- The file that is named, found from the directory `dir`. -/
def path? (dir : String) (r : Redirection) : Option String :=
  match r.target with
  | .file path => some (Path.resolve dir path)
  | _ => none

def opening? (dir : String) (r : Redirection) : Option FileRequest := (r.path? dir).map (Wiring.request r)

def writer? (storage : Storage) (dir : String) (r : Redirection) : Option Handle :=
  if r.fd = 0 then none else (r.path? dir).map (⟨storage, ·, r.append, []⟩)

def reader? (storage : Storage) (dir : String) (r : Redirection) : Option Reading :=
  if r.fd = 0 then (r.path? dir).map (⟨storage, ·⟩) else none

end Redirection

namespace Wiring

section Files

variable (storage : Storage) (dir : String) (rs : List Redirection)

def openings : List FileRequest := rs.filterMap (·.opening? dir)

def writers : List Handle := rs.filterMap (·.writer? storage dir)

def readers : List Reading := rs.filterMap (·.reader? storage dir)

/-- What closes all of these files when `written` tells what was written to each. -/
def closings (written : Nat → Bytes) : List FileRequest :=
  (writers storage dir rs).mapIdx (fun i h => (h.written (written i)).closing) ++
    (readers storage dir rs).map Reading.closing

/-- Where the output `d` leads after redirections. The last one of `d` decides, and a duplication stands for where
the other output led before it. -/
inductive Leads : List Redirection → (d : Int) → Sink → Prop
  | kept {rs : List Redirection} {d : Int} (hNone : ∀ r ∈ rs, r.fd ≠ d) :
    Leads rs d (if d = 1 then .output else .errors)
  | null {before after : List Redirection} {d : Int} {append : Bool} (hLast : ∀ r ∈ after, r.fd ≠ d) :
    Leads (before ++ ⟨d, .null, append⟩ :: after) d .null
  | file {before after : List Redirection} {d : Int} {append : Bool} {path : String}
      (hLast : ∀ r ∈ after, r.fd ≠ d) :
    Leads (before ++ ⟨d, .file path, append⟩ :: after) d (.file (writers storage dir before).length)
  | duplicate {before after : List Redirection} {d m : Int} {append : Bool} {sink : Sink}
      (hLast : ∀ r ∈ after, r.fd ≠ d) (hBefore : Leads before m sink) :
    Leads (before ++ ⟨d, .fd m, append⟩ :: after) d sink

/-- Where the input comes from after redirections, from `source` if there is none of it. The last one decides. -/
inductive Draws (source : Source) (world : World) : List Redirection → Source → Option String → Feed → Prop
  | kept {rs : List Redirection} (hNone : ∀ r ∈ rs, r.fd ≠ 0) : Draws source world rs source none .nothing
  | null {before after : List Redirection} {append : Bool} (hLast : ∀ r ∈ after, r.fd ≠ 0) :
    Draws source world (before ++ ⟨0, .null, append⟩ :: after) .feed none .nothing
  | file {before after : List Redirection} {append : Bool} {path : String} {feed : Feed}
      (hLast : ∀ r ∈ after, r.fd ≠ 0)
      (hOpen : ((world.serveAll storage (openings dir before)).serve storage (.read (Path.resolve dir path))).1 =
        .ok feed) :
    Draws source world (before ++ ⟨0, .file path, append⟩ :: after) .feed (some (Path.resolve dir path)) feed

/-- The streams `w` are those of a stage after the redirections `rs`. -/
structure Resolves (source : Source) (world : World) (w : Wiring) : Prop where
  outputs : ∀ d, d = 1 ∨ d = 2 → ∀ sink, Leads storage dir rs d sink ↔ w.sink d = sink
  input : Draws storage dir source world rs w.source w.path w.feed
  handles : w.handles = writers storage dir rs
  readings : w.readings = readers storage dir rs

end Files

variable {storage : Storage} {dir : String} {rs before after : List Redirection} {r : Redirection}

theorem openings_append (more : List Redirection) : openings dir (rs ++ more) = openings dir rs ++ openings dir more :=
  List.filterMap_append

theorem writers_append (more : List Redirection) :
    writers storage dir (rs ++ more) = writers storage dir rs ++ writers storage dir more :=
  List.filterMap_append

theorem readers_append (more : List Redirection) :
    readers storage dir (rs ++ more) = readers storage dir rs ++ readers storage dir more :=
  List.filterMap_append

theorem storage_of_mem_writers {h : Handle} (hMem : h ∈ writers storage dir rs) : h.storage = storage := by
  obtain ⟨r, -, hSome⟩ := List.mem_filterMap.mp hMem
  unfold Redirection.writer? at hSome
  split at hSome
  · cases hSome
  · obtain ⟨path, -, rfl⟩ := Option.map_eq_some_iff.mp hSome
    rfl

theorem storage_of_mem_readers {x : Reading} (hMem : x ∈ readers storage dir rs) : x.storage = storage := by
  obtain ⟨r, -, hSome⟩ := List.mem_filterMap.mp hMem
  unfold Redirection.reader? at hSome
  split at hSome
  · obtain ⟨path, -, rfl⟩ := Option.map_eq_some_iff.mp hSome
    rfl
  · cases hSome

/-- A file that stands in a list that gets longer at its end either was there before or is the new one. -/
theorem concat_cases {r' : Redirection} (h : before ++ r :: after = rs ++ [r']) :
    (after = [] ∧ before = rs ∧ r = r') ∨ ∃ rest, after = rest ++ [r'] ∧ before ++ r :: rest = rs := by
  rcases List.eq_nil_or_concat after with rfl | ⟨rest, last, rfl⟩
  · obtain ⟨hInit, hLast⟩ := List.append_inj' h rfl
    exact .inl ⟨rfl, hInit, (List.cons.inj hLast).1⟩
  · rw [List.concat_eq_append, ← List.cons_append, ← List.append_assoc] at h
    obtain ⟨hInit, hLast⟩ := List.append_inj' h rfl
    obtain ⟨rfl, -⟩ := List.cons.inj hLast
    exact .inr ⟨rest, List.concat_eq_append, hInit⟩

namespace Leads

variable {d : Int} {sink : Sink}

theorem append_iff_of_ne (h : r.fd ≠ d) : Leads storage dir (rs ++ [r]) d sink ↔ Leads storage dir rs d sink := by
  have hOther : ∀ {after : List Redirection}, (∀ x ∈ after, x.fd ≠ d) → ∀ x ∈ after ++ [r], x.fd ≠ d :=
    fun hAfter => List.forall_mem_append.mpr ⟨hAfter, List.forall_mem_singleton.mpr h⟩
  constructor
  · intro hLeads
    generalize hAll : rs ++ [r] = all at hLeads
    cases hLeads with
    | kept hNone =>
      subst hAll
      exact .kept (List.forall_mem_append.mp hNone).1
    | null hLast =>
      rcases concat_cases hAll.symm with ⟨rfl, rfl, rfl⟩ | ⟨rest, rfl, rfl⟩
      · exact absurd rfl h
      · exact .null (List.forall_mem_append.mp hLast).1
    | file hLast =>
      rcases concat_cases hAll.symm with ⟨rfl, rfl, rfl⟩ | ⟨rest, rfl, rfl⟩
      · exact absurd rfl h
      · exact .file (List.forall_mem_append.mp hLast).1
    | duplicate hLast hBefore =>
      rcases concat_cases hAll.symm with ⟨rfl, rfl, rfl⟩ | ⟨rest, rfl, rfl⟩
      · exact absurd rfl h
      · exact .duplicate (List.forall_mem_append.mp hLast).1 hBefore
  · intro hLeads
    cases hLeads with
    | kept hNone => exact .kept (hOther hNone)
    | null hLast =>
      rw [List.append_assoc]
      exact .null (hOther hLast)
    | file hLast =>
      rw [List.append_assoc]
      exact .file (hOther hLast)
    | duplicate hLast hBefore =>
      rw [List.append_assoc]
      exact .duplicate (hOther hLast) hBefore

theorem append_iff {target : Target} {append : Bool} :
    Leads storage dir (rs ++ [⟨d, target, append⟩]) d sink ↔
      (target = .null ∧ sink = .null) ∨ (∃ path, target = .file path ∧ sink = .file (writers storage dir rs).length) ∨
        ∃ m, target = .fd m ∧ Leads storage dir rs m sink := by
  -- Were it not the last redirection of `d`, a later one would be too.
  have hEnd : ∀ {rest : List Redirection}, ¬ ∀ x ∈ rest ++ [⟨d, target, append⟩], Redirection.fd x ≠ d :=
    fun h => (List.forall_mem_append.mp h).2 _ (List.mem_singleton.mpr rfl) rfl
  constructor
  · intro hLeads
    generalize hAll : rs ++ [⟨d, target, append⟩] = all at hLeads
    cases hLeads with
    | kept hNone =>
      subst hAll
      exact absurd hNone hEnd
    | null hLast =>
      rcases concat_cases hAll.symm with ⟨rfl, rfl, hSame⟩ | ⟨rest, rfl, rfl⟩
      · cases hSame
        exact .inl ⟨rfl, rfl⟩
      · exact absurd hLast hEnd
    | @file _ _ _ _ path hLast =>
      rcases concat_cases hAll.symm with ⟨rfl, rfl, hSame⟩ | ⟨rest, rfl, rfl⟩
      · cases hSame
        exact .inr (.inl ⟨path, rfl, rfl⟩)
      · exact absurd hLast hEnd
    | @duplicate _ _ _ m _ _ hLast hBefore =>
      rcases concat_cases hAll.symm with ⟨rfl, rfl, hSame⟩ | ⟨rest, rfl, rfl⟩
      · cases hSame
        exact .inr (.inr ⟨m, rfl, hBefore⟩)
      · exact absurd hLast hEnd
  · rintro (⟨rfl, rfl⟩ | ⟨path, rfl, rfl⟩ | ⟨m, rfl, hBefore⟩)
    · exact .null (by simp)
    · exact .file (by simp)
    · exact .duplicate (by simp) hBefore

end Leads

theorem Draws.append_of_ne {source s : Source} {world : World} {path : Option String} {feed : Feed} (h : r.fd ≠ 0)
    (hDraws : Draws storage dir source world rs s path feed) :
    Draws storage dir source world (rs ++ [r]) s path feed := by
  have hOther : ∀ {after : List Redirection}, (∀ x ∈ after, x.fd ≠ 0) → ∀ x ∈ after ++ [r], x.fd ≠ 0 :=
    fun hAfter => List.forall_mem_append.mpr ⟨hAfter, List.forall_mem_singleton.mpr h⟩
  cases hDraws with
  | kept hNone => exact .kept (hOther hNone)
  | null hLast =>
    rw [List.append_assoc]
    exact .null (hOther hLast)
  | file hLast hOpen =>
    rw [List.append_assoc]
    exact .file (hOther hLast) hOpen

theorem sink_point (w : Wiring) {d fd : Int} (hd : d = 1 ∨ d = 2) (hfd : fd = 1 ∨ fd = 2) (sink : Sink) :
    (w.point fd sink).sink d = if fd = d then sink else w.sink d := by
  rcases hd with rfl | rfl <;> rcases hfd with rfl | rfl <;> rfl

namespace Resolves

variable {source : Source} {world : World} {w : Wiring}

theorem initial (source : Source) (world : World) :
    Resolves storage dir [] source world (Wiring.initial source) where
  outputs := by
    rintro d hd sink
    constructor
    · intro hLeads
      generalize hNil : ([] : List Redirection) = none at hLeads
      cases hLeads with
      | kept hNone => rcases hd with rfl | rfl <;> rfl
      | null hLast => cases List.append_eq_nil_iff.mp hNil.symm |>.2
      | file hLast => cases List.append_eq_nil_iff.mp hNil.symm |>.2
      | duplicate hLast hBefore => cases List.append_eq_nil_iff.mp hNil.symm |>.2
    · rintro rfl
      have hSink : (Wiring.initial source).sink d = if d = 1 then Sink.output else .errors := rfl
      rw [hSink]
      exact .kept (by simp)
  input := .kept (by simp)
  handles := rfl
  readings := rfl

theorem redirect_input {target : Target} {append : Bool} (h : Resolves storage dir rs source world w)
    (hTarget : ∀ m, target ≠ .fd m)
    (hOpen : ∀ path, target = .file path → ∃ feed,
      ((world.serveAll storage (openings dir rs)).serve storage (.read (Path.resolve dir path))).1 = .ok feed) :
    ∃ w', w.redirect storage dir ⟨0, target, append⟩ (world.serveAll storage (openings dir rs)) =
        (.ok w', world.serveAll storage (openings dir (rs ++ [⟨0, target, append⟩]))) ∧
      Resolves storage dir (rs ++ [⟨0, target, append⟩]) source world w' := by
  have hOutputs : ∀ d, d = 1 ∨ d = 2 → ∀ sink,
      Leads storage dir (rs ++ [⟨0, target, append⟩]) d sink ↔ w.sink d = sink := by
    intro d hd sink
    have hOther : (0 : Int) ≠ d := by omega
    exact (Leads.append_iff_of_ne hOther).trans (h.outputs d hd sink)
  have hWriters : w.handles = writers storage dir (rs ++ [⟨0, target, append⟩]) := by
    rw [writers_append, h.handles]
    exact (List.append_nil _).symm
  cases target with
  | fd m => exact absurd rfl (hTarget m)
  | null =>
    have hOpenings : openings dir (rs ++ [⟨0, .null, append⟩]) = openings dir rs := by
      rw [openings_append]
      exact List.append_nil _
    have hReaders : w.readings = readers storage dir (rs ++ [⟨0, .null, append⟩]) := by
      rw [readers_append, h.readings]
      exact (List.append_nil _).symm
    rw [hOpenings]
    exact ⟨_, rfl, hOutputs, .null (by simp), hWriters, hReaders⟩
  | file path =>
    obtain ⟨feed, hFeed⟩ := hOpen path rfl
    have hOpenings : openings dir (rs ++ [⟨0, .file path, append⟩]) =
        openings dir rs ++ [.read (Path.resolve dir path)] := openings_append _
    have hReaders : w.readings ++ [⟨storage, Path.resolve dir path⟩] =
        readers storage dir (rs ++ [⟨0, .file path, append⟩]) := by
      rw [readers_append, h.readings]
      rfl
    let w' : Wiring := { w with
      source := .feed
      feed := feed
      path := some (Path.resolve dir path)
      readings := w.readings ++ [⟨storage, Path.resolve dir path⟩] }
    refine ⟨w', ?_, hOutputs, .file (by simp) hFeed, hWriters, hReaders⟩
    rw [hOpenings, World.serveAll_append, World.serveAll_singleton]
    unfold Wiring.redirect
    rw [if_pos rfl]
    dsimp only
    rw [hFeed]
    rfl

theorem redirect_output {fd : Int} {target : Target} {append : Bool} (h : Resolves storage dir rs source world w)
    (hFd : fd = 1 ∨ fd = 2) (hTarget : ∀ m, target = .fd m → m = 1 ∨ m = 2)
    (hOpen : ∀ path, target = .file path → ∃ feed, ((world.serveAll storage (openings dir rs)).serve storage
      (Wiring.request ⟨fd, target, append⟩ (Path.resolve dir path))).1 = .ok feed) :
    ∃ w', w.redirect storage dir ⟨fd, target, append⟩ (world.serveAll storage (openings dir rs)) =
        (.ok w', world.serveAll storage (openings dir (rs ++ [⟨fd, target, append⟩]))) ∧
      Resolves storage dir (rs ++ [⟨fd, target, append⟩]) source world w' := by
  have hOutput : fd ≠ 0 := by omega
  have hPoint : ∀ sink, (w.point fd sink).source = w.source ∧ (w.point fd sink).path = w.path ∧
      (w.point fd sink).feed = w.feed ∧ (w.point fd sink).handles = w.handles ∧
      (w.point fd sink).readings = w.readings := by
    intro sink
    unfold point
    split <;> exact ⟨rfl, rfl, rfl, rfl, rfl⟩
  have hReaders : readers storage dir (rs ++ [⟨fd, target, append⟩]) = w.readings := by
    have hNone : Redirection.reader? storage dir ⟨fd, target, append⟩ = none := if_neg hOutput
    rw [readers_append, h.readings, readers, readers, List.filterMap_cons_none hNone]
    exact List.append_nil _
  -- The stream `fd` leads where the new redirection says, and the other output where it did.
  have hOutputs : ∀ sink, (∀ s, Leads storage dir (rs ++ [⟨fd, target, append⟩]) fd s ↔ sink = s) →
      ∀ d, d = 1 ∨ d = 2 → ∀ s,
        Leads storage dir (rs ++ [⟨fd, target, append⟩]) d s ↔ (w.point fd sink).sink d = s := by
    intro sink hSink d hd s
    rw [sink_point w hd hFd]
    by_cases hSame : fd = d
    · rw [if_pos hSame, ← hSame]
      exact hSink s
    · rw [if_neg hSame]
      exact (Leads.append_iff_of_ne hSame).trans (h.outputs d hd s)
  have hKeeps : ∀ sink, (∀ path, target ≠ .file path) →
      (∀ s, Leads storage dir (rs ++ [⟨fd, target, append⟩]) fd s ↔ sink = s) →
      Resolves storage dir (rs ++ [⟨fd, target, append⟩]) source world (w.point fd sink) ∧
        openings dir (rs ++ [⟨fd, target, append⟩]) = openings dir rs := by
    intro sink hNoFile hSink
    obtain ⟨hSource, hPath, hFeed, hHandles, hReadings⟩ := hPoint sink
    have hNoPath : Redirection.path? dir ⟨fd, target, append⟩ = none := by
      unfold Redirection.path?
      cases target with
      | file path => exact absurd rfl (hNoFile path)
      | _ => rfl
    have hNoWriter : Redirection.writer? storage dir ⟨fd, target, append⟩ = none := by
      rw [Redirection.writer?, hNoPath]
      exact if_neg hOutput
    have hNoOpening : Redirection.opening? dir ⟨fd, target, append⟩ = none := by
      rw [Redirection.opening?, hNoPath]
      rfl
    refine ⟨⟨hOutputs sink hSink, ?_, ?_, hReadings.trans hReaders.symm⟩, ?_⟩
    · rw [hSource, hPath, hFeed]
      exact h.input.append_of_ne hOutput
    · rw [hHandles, h.handles, writers_append]
      simp [writers, hNoWriter]
    · rw [openings_append]
      simp [openings, hNoOpening]
  cases target with
  | null =>
    obtain ⟨hResolves, hOpenings⟩ := hKeeps .null (by simp) fun s => by simp [Leads.append_iff, eq_comm]
    refine ⟨_, ?_, hResolves⟩
    rw [hOpenings]
    exact if_neg hOutput
  | fd m =>
    obtain ⟨hResolves, hOpenings⟩ := hKeeps (w.sink m) (by simp) fun s => by
      simp [Leads.append_iff, h.outputs m (hTarget m rfl)]
    refine ⟨_, ?_, hResolves⟩
    rw [hOpenings]
    exact if_neg hOutput
  | file path =>
    obtain ⟨feed, hFeed⟩ := hOpen path rfl
    let handle : Handle := ⟨storage, Path.resolve dir path, append, []⟩
    let sink : Sink := .file w.handles.length
    have hOpenings : openings dir (rs ++ [⟨fd, .file path, append⟩]) =
        openings dir rs ++ [Wiring.request ⟨fd, .file path, append⟩ (Path.resolve dir path)] := openings_append _
    have hRequest : Wiring.request ⟨fd, .file path, append⟩ (Path.resolve dir path) =
        if append then .append (Path.resolve dir path) else .create (Path.resolve dir path) := if_neg hOutput
    have hWriter : Redirection.writer? storage dir ⟨fd, .file path, append⟩ = some handle := if_neg hOutput
    have hSink : ∀ s, Leads storage dir (rs ++ [⟨fd, .file path, append⟩]) fd s ↔ sink = s := by
      intro s
      simp [Leads.append_iff, sink, h.handles, eq_comm]
    have hOpened : ({ w with handles := w.handles ++ [handle] } : Wiring).point fd sink =
        { w.point fd sink with handles := w.handles ++ [handle] } := by
      unfold point
      split <;> rfl
    obtain ⟨hSource, hPath, hFeed', hHandles, hReadings⟩ := hPoint sink
    refine ⟨{ w.point fd sink with handles := w.handles ++ [handle] }, ?_, hOutputs sink hSink, ?_, ?_,
      hReadings.trans hReaders.symm⟩
    · rw [hOpenings, World.serveAll_append, World.serveAll_singleton, ← hOpened]
      rw [hRequest] at hFeed ⊢
      unfold Wiring.redirect
      rw [if_neg hOutput]
      dsimp only
      rw [hFeed]
      rfl
    · dsimp only
      rw [hSource, hPath, hFeed']
      exact h.input.append_of_ne hOutput
    · rw [writers_append, h.handles]
      simp [writers, hWriter]

theorem redirect (h : Resolves storage dir rs source world w) (hLegal : r.Legal)
    (hOpen : ∀ request, r.opening? dir = some request →
      ∃ feed, ((world.serveAll storage (openings dir rs)).serve storage request).1 = .ok feed) :
    ∃ w', w.redirect storage dir r (world.serveAll storage (openings dir rs)) =
        (.ok w', world.serveAll storage (openings dir (rs ++ [r]))) ∧
      Resolves storage dir (rs ++ [r]) source world w' := by
  obtain ⟨fd, target, append⟩ := r
  rcases hLegal.standard with hInput | hOutput
  · obtain rfl : fd = 0 := hInput
    refine h.redirect_input (hLegal.input rfl) ?_
    rintro path rfl
    exact hOpen _ rfl
  · refine h.redirect_output hOutput hLegal.duplicate ?_
    rintro path rfl
    exact hOpen _ rfl

theorem redirectAll_append (h : Resolves storage dir rs source world w) (hLegal : ∀ r ∈ before, r.Legal)
    (hGrants : world.Grants storage (openings dir (rs ++ before))) (rest : List Redirection) :
    ∃ w', Resolves storage dir (rs ++ before) source world w' ∧
      w.redirectAll storage dir (before ++ rest) (world.serveAll storage (openings dir rs)) =
        w'.redirectAll storage dir rest (world.serveAll storage (openings dir (rs ++ before))) := by
  induction before generalizing rs w with
  | nil =>
    rw [List.append_nil, List.nil_append]
    exact ⟨w, h, rfl⟩
  | cons r before ih =>
    obtain ⟨hr, hBefore⟩ := List.forall_mem_cons.mp hLegal
    have hOpen : ∀ request, r.opening? dir = some request →
        ∃ feed, ((world.serveAll storage (openings dir rs)).serve storage request).1 = .ok feed := by
      intro request hRequest
      refine hGrants (openings dir rs) request (openings dir before) ?_
      rw [openings_append]
      exact congrArg _ (List.filterMap_cons_some hRequest)
    obtain ⟨w₁, hFirst, hResolves⟩ := h.redirect hr hOpen
    have hAll : rs ++ r :: before = rs ++ [r] ++ before := by simp
    rw [hAll] at hGrants ⊢
    obtain ⟨w', hResolves', hRest⟩ := ih hResolves hBefore hGrants
    exact ⟨w', hResolves', (redirectAll_of_redirect hFirst _).trans hRest⟩

end Resolves

/-- What the source of the input gives is `current`. A reader of the host's files sees what has become of its file,
and any other what the file held when it was opened. -/
def Currently (storage : Storage) (world : World) (w : Wiring) (current : Feed) : Prop :=
  current = w.feed ∨ world.isHeld storage = false ∧
    ∃ path, w.path = some path ∧ (world.serve storage (.read path)).1 = .ok current

theorem refresh_eq (storage : Storage) (w : Wiring) (world : World) :
    ∃ current, w.Currently storage world current ∧ w.refresh storage world = { w with feed := current } := by
  unfold refresh
  split
  · next path hPath =>
    split
    · exact ⟨w.feed, .inl rfl, rfl⟩
    · next hHeld =>
      split
      · next feed hFeed => exact ⟨feed, .inr ⟨Bool.eq_false_iff.mpr hHeld, path, hPath, hFeed⟩, rfl⟩
      · exact ⟨w.feed, .inl rfl, rfl⟩
  · exact ⟨w.feed, .inl rfl, rfl⟩

theorem redirect_refused {request : FileRequest} {fault : Fault} {w : Wiring} {world : World} (hLegal : r.Legal)
    (hRequest : r.opening? dir = some request) (hFault : (world.serve storage request).1 = .error fault) :
    w.redirect storage dir r world = (.error fault, (world.serve storage request).2) := by
  obtain ⟨fd, target, append⟩ := r
  cases target with
  | file path =>
    cases hRequest
    unfold redirect
    dsimp only at hFault ⊢
    unfold request at hFault ⊢
    by_cases hInput : fd = 0
    · subst hInput
      simp only [if_true] at hFault ⊢
      rw [hFault]
      rfl
    · simp only [if_neg hInput] at hFault ⊢
      rw [hFault]
      rfl
  | _ => cases hRequest

theorem close_files (world : World) (written : Nat → Bytes) :
    (world.closeAll ((writers storage dir rs).mapIdx fun i h => h.written (written i))).releaseAll
      (readers storage dir rs) = world.serveAll storage (closings storage dir rs written) := by
  have hWriters : ∀ h ∈ (writers storage dir rs).mapIdx fun i h => h.written (written i), h.storage = storage := by
    intro h hMem
    obtain ⟨i, hi, rfl⟩ := List.mem_mapIdx.mp hMem
    have hSame : ((writers storage dir rs)[i].written (written i)).storage = (writers storage dir rs)[i].storage := rfl
    rw [hSame]
    exact storage_of_mem_writers (List.getElem_mem hi)
  have hClosing : ((writers storage dir rs).mapIdx fun i h => h.written (written i)).map Handle.closing =
      (writers storage dir rs).mapIdx fun i h => (h.written (written i)).closing :=
    List.ext_getElem (by simp) (by simp)
  rw [World.closeAll_eq _ hWriters, World.releaseAll_eq_serveAll _ fun x => storage_of_mem_readers, hClosing,
    ← World.serveAll_append]
  rfl

theorem Resolves.abandon {source : Source} {world : World} {w : Wiring} (h : Resolves storage dir rs source world w)
    (world' : World) : w.abandon world' = world'.serveAll storage (closings storage dir rs fun _ => []) := by
  have hWriters : writers storage dir rs = (writers storage dir rs).mapIdx fun _ h => h.written [] :=
    List.ext_getElem (by simp) (by simp)
  rw [← close_files, ← hWriters, ← h.handles, ← h.readings]
  rfl

/-- Redirections are made if every file that they name can be opened, one after the other. -/
theorem redirectAll_granted {world : World} (source : Source) (hLegal : ∀ r ∈ rs, r.Legal)
    (hGrants : world.Grants storage (openings dir rs)) :
    ∃ w current, Resolves storage dir rs source world w ∧
      w.Currently storage (world.serveAll storage (openings dir rs)) current ∧
      (Wiring.initial source).redirectAll storage dir rs world =
        (.ok { w with feed := current }, world.serveAll storage (openings dir rs)) := by
  obtain ⟨w, hResolves, hAll⟩ := (Resolves.initial source world).redirectAll_append hLegal hGrants []
  obtain ⟨current, hCurrent, hRefresh⟩ := refresh_eq storage w (world.serveAll storage (openings dir rs))
  refine ⟨w, current, hResolves, hCurrent, ?_⟩
  rw [List.append_nil] at hAll
  rw [← hRefresh]
  exact hAll

/-- A file that cannot be opened ends the redirections. Those before it are undone, and those after it are left out. -/
theorem redirectAll_refused {source : Source} {world : World} {request : FileRequest} {fault : Fault}
    (hLegal : ∀ r ∈ before, r.Legal) (hr : r.Legal) (hGrants : world.Grants storage (openings dir before))
    (hRequest : r.opening? dir = some request)
    (hFault : ((world.serveAll storage (openings dir before)).serve storage request).1 = .error fault) :
    (Wiring.initial source).redirectAll storage dir (before ++ r :: after) world =
      (.error fault, (world.serveAll storage (openings dir before ++ [request])).serveAll storage
        (closings storage dir before fun _ => [])) := by
  obtain ⟨w, hResolves, hAll⟩ := (Resolves.initial source world).redirectAll_append hLegal hGrants (r :: after)
  have hResolves : Resolves storage dir before source world w := hResolves
  have hFirst := redirect_refused (w := w) hr hRequest hFault
  rw [World.serveAll_append, World.serveAll_singleton, ← hResolves.abandon]
  refine hAll.trans ?_
  unfold redirectAll
  rw [List.nil_append, hFirst]

end Wiring

end Pipework
