import Pipework.Proofs.Script.Steps

/-!
# Well-formed scripts

Running a script takes the first word of each command and the first command of each pipeline, and
tells descriptors apart by their number, without looking whether they are there. Every script that
reading gives has what running relies on.
-/

namespace Pipework

/-- The names of variables: a letter or an underscore, then letters, digits and underscores. -/
def IsName (name : String) : Prop :=
  ∃ first rest, name.toList = first :: rest ∧ isNameStart first = true ∧ rest.all isNameChar = true

theorem IsName.nameChar {name : String} (h : IsName name) : ∀ x ∈ name.toList, isNameChar x = true := by
  obtain ⟨first, rest, hName, hFirst, hRest⟩ := h
  intro x hx
  rw [hName] at hx
  rcases List.mem_cons.mp hx with rfl | hx
  · simp [isNameChar, hFirst]
  · exact List.all_eq_true.mp hRest x hx

def Table.Ordered (t : Table) : Prop := t.Pairwise fun a b => a.1 < b.1

structure Redirection.WellFormed (r : Redirection) : Prop where
  standard : r.fd = 0 ∨ r.fd = 1 ∨ r.fd = 2
  input : r.fd = 0 → r.append = false ∧ ∀ n, r.target ≠ .fd n
  duplicate : ∀ n, r.target = .fd n → (n = 1 ∨ n = 2) ∧ r.append = false
  null : r.target = .null → r.append = false
  file : ∀ path, r.target = .file path → path ≠ "" ∧ path ≠ nullDevice

/-- What holds of a command from its first word on; the empty table stands for no assignment. -/
structure Command.PartsWellFormed (c : Command) : Prop where
  env_ordered : c.env.Ordered
  env_names : ∀ entry ∈ c.env, IsName entry.1
  redirections : ∀ r ∈ c.redirections, r.WellFormed

structure Command.WellFormed (c : Command) : Prop extends c.PartsWellFormed where
  args_ne_nil : c.args ≠ []

structure Pipeline.WellFormed (p : Pipeline) : Prop where
  commands_ne_nil : p.commands ≠ []
  commands : ∀ c ∈ p.commands, c.WellFormed

def Script.WellFormed (t : Script) : Prop :=
  ∀ st ∈ t.statements, ∀ p ∈ st.alternatives, p.WellFormed

namespace Table

theorem mem_of_mem_insert {key value : String} {t : Table} {entry : String × String}
    (h : entry ∈ t.insert key value) : entry = (key, value) ∨ entry ∈ t := by
  induction t with
  | nil => exact .inl (List.mem_singleton.mp h)
  | cons first rest ih =>
    obtain ⟨k, v⟩ := first
    rw [insert] at h
    split at h
    · rcases List.mem_cons.mp h with rfl | h
      · exact .inl rfl
      · exact .inr (List.mem_cons_of_mem _ h)
    · split at h
      · exact List.mem_cons.mp h
      · rcases List.mem_cons.mp h with rfl | h
        · exact .inr List.mem_cons_self
        · exact (ih h).imp_right (List.mem_cons_of_mem _)

theorem Ordered.insert {t : Table} (h : t.Ordered) (key value : String) :
    (t.insert key value).Ordered := by
  induction t with
  | nil => exact List.pairwise_singleton _ _
  | cons first rest ih =>
    obtain ⟨k, v⟩ := first
    obtain ⟨hFirst, hRest⟩ := List.pairwise_cons.mp h
    rw [Table.insert]
    split
    · next hEq => exact List.pairwise_cons.mpr ⟨hEq ▸ hFirst, hRest⟩
    · next hNe =>
      split
      · next hLt =>
        refine List.pairwise_cons.mpr ⟨?_, h⟩
        intro entry hEntry
        rcases List.mem_cons.mp hEntry with rfl | hEntry
        · exact hLt
        · exact String.lt_trans hLt (hFirst entry hEntry)
      · next hGe =>
        have hLt : k < key := Std.lt_of_le_of_ne (Std.not_lt.mp hGe) hNe
        refine List.pairwise_cons.mpr ⟨?_, ih hRest⟩
        intro entry hEntry
        rcases mem_of_mem_insert hEntry with rfl | hEntry
        · exact hLt
        · exact hFirst entry hEntry

end Table

theorem Word.assignment?_isName {w : Word} {key value : String}
    (h : w.assignment? = some (key, value)) : IsName key := by
  unfold assignment? at h
  split at h
  · next first name eq value' hSpan =>
    obtain ⟨hBare, heq⟩ := Option.ite_none_right_eq_some.mp h
    cases heq
    simp only [Bool.and_eq_true] at hBare
    exact ⟨first, name, String.toList_ofList, hBare.1.2, hBare.2⟩
  · cases h

namespace Setting

open Cursor

theorem target_ok {s : Setting} {op c c' : Cursor} {t : Target} (h : s.target op c = .ok (t, c')) :
    ∃ path, path ≠ "" ∧ t = Target.ofPath path := by
  cases hRest : c.skipBlanks.rest with
  | nil =>
    rw [target_nil hRest] at h
    cases h
  | cons x rest =>
    rw [target_cons hRest] at h
    split at h
    · cases h
    · split at h
      · cases h
      · obtain ⟨⟨w, d⟩, -, h⟩ := bind_eq_ok h
        dsimp only at h
        split at h
        · cases h
        · next hText =>
          cases h
          refine ⟨_, ?_, rfl⟩
          simpa using hText

theorem wellFormed_toPath {fd : Int} {path : String} {append : Bool}
    (hfd : fd = 0 ∧ append = false ∨ fd = 1 ∨ fd = 2) (hPath : path ≠ "") :
    Redirection.WellFormed ⟨fd, .ofPath path, append && Target.ofPath path != .null⟩ := by
  unfold Target.ofPath
  split
  · next hNull =>
    constructor <;> simp
    omega
  · next hFile =>
    constructor
    · exact hfd.imp_left And.left
    · rintro rfl
      simpa using hfd
    · rintro _ ⟨⟩
    · rintro ⟨⟩
    · rintro _ ⟨⟩
      exact ⟨hPath, hFile⟩

theorem isOutput_iff {n : Nat} : isOutput n = true ↔ n = 1 ∨ n = 2 := by
  simp [isOutput]

theorem redirectInput_wellFormed {s : Setting} {op c' : Cursor} {rs : List Redirection}
    (h : s.redirectInput op = .ok (rs, c')) : ∀ r ∈ rs, r.WellFormed := by
  rw [redirectInput_eq] at h
  split at h
  · cases h
  · obtain ⟨⟨t, d⟩, ht, heq⟩ := map_eq_ok h
    cases heq
    obtain ⟨path, hPath, rfl⟩ := target_ok ht
    intro r hr
    rw [List.mem_singleton.mp hr]
    exact wellFormed_toPath (.inl ⟨rfl, rfl⟩) hPath

theorem wellFormed_duplicate {fd n : Nat} (hfd : isOutput fd = true) (hn : isOutput n = true) :
    Redirection.WellFormed ⟨fd, .fd n, false⟩ := by
  rw [isOutput_iff] at hfd hn
  constructor
  · dsimp only
    omega
  · dsimp only
    omega
  · rintro _ ⟨⟩
    exact ⟨by omega, rfl⟩
  · rintro ⟨⟩
  · rintro _ ⟨⟩

theorem redirectOutput_wellFormed {s : Setting} {fd : Nat} {both : Bool} {op c' : Cursor}
    {rs : List Redirection} (hfd : isOutput fd = true)
    (h : s.redirectOutput fd both op = .ok (rs, c')) : ∀ r ∈ rs, r.WellFormed := by
  rw [redirectOutput_eq] at h
  split at h
  · dsimp only at h
    split at h
    · cases h
    · split at h
      · next hn =>
        cases h
        intro r hr
        rw [List.mem_singleton.mp hr]
        exact wellFormed_duplicate hfd hn
      · cases h
  · obtain ⟨⟨t, d⟩, ht, heq⟩ := map_eq_ok h
    cases heq
    obtain ⟨path, hPath, rfl⟩ := target_ok ht
    rw [isOutput_iff] at hfd
    intro r hr
    unfold outputTo at hr
    split at hr
    · rcases List.mem_cons.mp hr with rfl | hr
      · exact wellFormed_toPath (.inr (.inr rfl)) hPath
      · rw [List.mem_singleton.mp hr]
        exact @wellFormed_duplicate 1 2 rfl rfl
    · rw [List.mem_singleton.mp hr]
      exact wellFormed_toPath (by omega) hPath

theorem Draft.addRedirections_wellFormed {d : Draft} {rs : List Redirection}
    (hd : d.command.PartsWellFormed) (hrs : ∀ r ∈ rs, r.WellFormed) :
    (d.addRedirections rs).command.PartsWellFormed where
  env_ordered := hd.env_ordered
  env_names := hd.env_names
  redirections r hr := (List.mem_append.mp hr).elim (hd.redirections r) (hrs r)

theorem Draft.addWord_wellFormed {first : Bool} {d : Draft} {w : Word}
    (hd : d.command.PartsWellFormed) : (d.addWord first w).command.PartsWellFormed := by
  unfold addWord
  split
  · exact hd
  · split
    · exact ⟨hd.env_ordered, hd.env_names, hd.redirections⟩
    · split
      · exact hd
      · split
        · next key value hAssign =>
          refine ⟨hd.env_ordered.insert key value, ?_, hd.redirections⟩
          intro entry hEntry
          rcases Table.mem_of_mem_insert hEntry with rfl | hEntry
          · exact Word.assignment?_isName hAssign
          · exact hd.env_names entry hEntry
        · exact ⟨hd.env_ordered, hd.env_names, hd.redirections⟩

theorem takeWord_wellFormed {s : Setting} {first : Bool} {d d' : Draft} {start c c' : Cursor}
    {w : Word} (hd : d.command.PartsWellFormed)
    (h : s.takeWord first d start w c = .ok (d', c')) : d'.command.PartsWellFormed := by
  unfold takeWord at h
  dsimp only at h
  split at h
  · obtain ⟨⟨rs, c₁⟩, hrs, heq⟩ := map_eq_ok h
    cases heq
    exact Draft.addRedirections_wellFormed hd (redirectOutput_wellFormed rfl hrs)
  · split at h
    · split at h
      · next hfd =>
        obtain ⟨⟨rs, c₁⟩, hrs, heq⟩ := map_eq_ok h
        cases heq
        exact Draft.addRedirections_wellFormed hd (redirectOutput_wellFormed hfd hrs)
      · cases h
    · split at h
      · split at h
        · obtain ⟨⟨rs, c₁⟩, hrs, heq⟩ := map_eq_ok h
          cases heq
          exact Draft.addRedirections_wellFormed hd (redirectInput_wellFormed hrs)
        · cases h
      · cases h
        exact Draft.addWord_wellFormed hd

theorem commandPart_wellFormed {s : Setting} {first : Bool} {d d' : Draft} {c c' : Cursor}
    (hd : d.command.PartsWellFormed) (h : s.commandPart first d c = .ok (d', c')) :
    d'.command.PartsWellFormed := by
  rw [commandPart_eq] at h
  split at h
  · cases h
    exact hd
  · split at h
    · obtain ⟨⟨rs, c₁⟩, hrs, heq⟩ := map_eq_ok h
      cases heq
      exact Draft.addRedirections_wellFormed hd (redirectInput_wellFormed hrs)
    · split at h
      · obtain ⟨⟨rs, c₁⟩, hrs, heq⟩ := map_eq_ok h
        cases heq
        exact Draft.addRedirections_wellFormed hd (redirectOutput_wellFormed rfl hrs)
      · obtain ⟨⟨w, c₁⟩, -, h⟩ := bind_eq_ok h
        exact takeWord_wellFormed hd h

theorem commandFrom_wellFormed {s : Setting} {first : Bool} {d d' : Draft} {c c' : Cursor}
    (hd : d.command.PartsWellFormed) (h : s.commandFrom first d c = .ok (d', c')) :
    d'.command.PartsWellFormed := by
  fun_induction commandFrom s first d c with
  | case1 d c c₁ hEnd =>
    simp only [Except.ok.injEq, Prod.mk.injEq] at h
    exact h.1 ▸ hd
  | case2 d c c₁ hEnd m hp => cases h
  | case3 d c c₁ hEnd d₁ c₂ hp ih => exact ih (commandPart_wellFormed hd hp) h

theorem command_wellFormed {s : Setting} {first ignore : Bool} {c c' : Cursor} {command : Command}
    (h : s.command first c = .ok (some (command, ignore), c')) : command.WellFormed := by
  rw [command_eq] at h
  obtain ⟨⟨d, c₁⟩, hd, h⟩ := bind_eq_ok h
  have hEmpty : Draft.empty.command.PartsWellFormed :=
    ⟨List.Pairwise.nil, List.forall_mem_nil _, List.forall_mem_nil _⟩
  dsimp only at h
  split at h
  · next hArgs =>
    cases h
    exact ⟨commandFrom_wellFormed hEmpty hd, by simpa using hArgs⟩
  · split at h <;> cases h

/-- While the commands of a pipeline are read, there may be none of them yet. -/
def PipelineSound (s : Setting) (p : Pipeline) : Prop :=
  (∀ c ∈ p.commands, c.WellFormed) ∧ p.file = s.file

theorem extended_sound {s : Setting} {p : Pipeline} {first : Bool} {c c' : Cursor}
    {found : Option (Command × Bool)} (hp : s.PipelineSound p)
    (h : s.command first c = .ok (found, c')) : s.PipelineSound (extended p found) := by
  cases found with
  | none => exact hp
  | some found =>
    refine ⟨?_, hp.2⟩
    intro command hCommand
    rcases List.mem_append.mp hCommand with hCommand | hCommand
    · exact hp.1 command hCommand
    · rw [List.mem_singleton.mp hCommand]
      exact command_wellFormed h

theorem pipelineFrom_sound {s : Setting} {p p' : Pipeline} {c c' : Cursor} (hp : s.PipelineSound p)
    (h : s.pipelineFrom p c = .ok (p', c')) : s.PipelineSound p' := by
  rw [pipelineFrom_eq] at h
  obtain ⟨⟨found, c₁⟩, hc, h⟩ := bind_eq_ok h
  have hExtended := extended_sound hp hc
  dsimp only at h
  split at h
  · next hBar =>
    have hLess := left_bar_lt hc hBar
    exact pipelineFrom_sound hExtended h
  · cases h
    exact hExtended
termination_by c.left

def AlternativeSound (s : Setting) (p : Pipeline) : Prop := p.WellFormed ∧ p.file = s.file

theorem pipeline_sound {s : Setting} {c c' : Cursor} {p : Pipeline}
    (h : s.pipeline c = .ok (some p, c')) : s.AlternativeSound p := by
  rw [pipeline_eq] at h
  obtain ⟨⟨p', c₁⟩, hp, heq⟩ := map_eq_ok h
  obtain ⟨hCommands, hFile⟩ := pipelineFrom_sound ⟨List.forall_mem_nil _, rfl⟩ hp
  obtain ⟨hSome, -⟩ := Prod.mk.inj heq
  obtain ⟨hNe, hSome⟩ := Option.ite_none_left_eq_some.mp hSome
  cases hSome
  exact ⟨⟨by simpa using hNe, hCommands⟩, hFile⟩

theorem alternativesFrom_sound {s : Setting} {alts alts' : List Pipeline} {c c' : Cursor}
    (hAlts : ∀ p ∈ alts, s.AlternativeSound p)
    (h : s.alternativesFrom alts c = .ok (alts', c')) : ∀ p ∈ alts', s.AlternativeSound p := by
  rw [alternativesFrom_eq] at h
  obtain ⟨⟨found, c₁⟩, hp, h⟩ := bind_eq_ok h
  have hMore : ∀ p ∈ alts ++ found.toList, s.AlternativeSound p := by
    intro p hMem
    rcases List.mem_append.mp hMem with hMem | hMem
    · exact hAlts p hMem
    · exact pipeline_sound (Option.mem_toList.mp hMem ▸ hp)
  dsimp only at h
  split at h
  · next hBars =>
    have hLess := left_bars_lt hp hBars
    split at h
    · cases h
    · exact alternativesFrom_sound hMore h
  · cases h
    exact hMore
termination_by c.left

theorem statement_sound {s : Setting} {c c' : Cursor} {st : Statement}
    (h : s.statement c = .ok (some st, c')) : ∀ p ∈ st.alternatives, s.AlternativeSound p := by
  rw [statement_eq] at h
  obtain ⟨⟨alts, c₁⟩, hAlts, heq⟩ := map_eq_ok h
  have hSound := alternativesFrom_sound (List.forall_mem_nil _) hAlts
  cases alts with
  | nil => cases heq
  | cons first fallbacks =>
    cases heq
    exact hSound

theorem statements_sound {s : Setting} {c : Cursor} {sts : List Statement}
    (h : s.statements c = .ok sts) : ∀ st ∈ sts, ∀ p ∈ st.alternatives, s.AlternativeSound p := by
  rw [statements_eq] at h
  split at h
  · cases h
    exact List.forall_mem_nil _
  · next hEnd =>
    obtain ⟨⟨found, c₁⟩, hFound, h⟩ := bind_eq_ok h
    obtain ⟨more, hMore, rfl⟩ := map_eq_ok h
    have hLess := left_statements_lt hEnd hFound
    intro st hMem
    rcases List.mem_append.mp hMem with hMem | hMem
    · exact statement_sound (Option.mem_toList.mp hMem ▸ hFound)
    · exact statements_sound hMore st hMem
termination_by c.left

end Setting

theorem Script.parse_wellFormed {s : Setting} {text : String} {t : Script}
    (h : Script.parse s text = .ok t) :
    t.WellFormed ∧ ∀ st ∈ t.statements, ∀ p ∈ st.alternatives, p.file = s.file := by
  rw [Script.parse_eq] at h
  obtain ⟨c, -, h⟩ := bind_eq_ok h
  obtain ⟨sts, hStatements, rfl⟩ := Setting.map_eq_ok h
  have hSound := Setting.statements_sound hStatements
  exact ⟨fun st hst p hp => (hSound st hst p hp).1, fun st hst p hp => (hSound st hst p hp).2⟩

theorem Script.parse_wellFormed_redirected :
    ∃ t, Script.parse ⟨[("v", "a b")], "f", 3⟩ "K=1 x $v </dev/null &>e || ignore y |" = .ok t ∧
      t.WellFormed ∧ ∀ st ∈ t.statements, ∀ p ∈ st.alternatives, p.file = "f" := by
  have h : Script.parse ⟨[("v", "a b")], "f", 3⟩ "K=1 x $v </dev/null &>e || ignore y |" =
      .ok ⟨[⟨⟨[⟨["x", "a b"], [("K", "1")],
          [⟨0, .null, false⟩, ⟨2, .file "e", false⟩, ⟨1, .fd 2, false⟩]⟩], false, "f", 3⟩,
        [⟨[⟨["y"], [], []⟩], true, "f", 3⟩]⟩]⟩ := by decide +kernel
  exact ⟨_, h, Script.parse_wellFormed h⟩

end Pipework
