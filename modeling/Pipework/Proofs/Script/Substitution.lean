import Pipework.Proofs.Script.Pairing.Script

/-!
# Values do not change the shape of a script

A value is put in place of its name while a word is read, and whatever it spells, the script around it
stays: the same statements, commands, words and redirections, or the same mistake. Only the empty
value is excepted, since a redirection to an empty word is a mistake. What a word says still depends on
the values, and so does whether a redirection to it is one to the null device.
-/

namespace Pipework

def Redirection.SameShape (r₁ r₂ : Redirection) : Prop :=
  r₁.fd = r₂.fd ∧
    match r₁.target, r₂.target with
    | .fd m, .fd n => m = n ∧ r₁.append = r₂.append
    | .file _, .file _ => r₁.append = r₂.append
    | .file _, .null => r₂.append = false
    | .null, .file _ => r₁.append = false
    | .null, .null => r₁.append = r₂.append
    | _, _ => False

structure Command.SameShape (c₁ c₂ : Command) : Prop where
  args : c₁.args.length = c₂.args.length
  env : c₁.env.map Prod.fst = c₂.env.map Prod.fst
  redirections : List.Forall₂ Redirection.SameShape c₁.redirections c₂.redirections

structure Pipeline.SameShape (p₁ p₂ : Pipeline) : Prop where
  commands : List.Forall₂ Command.SameShape p₁.commands p₂.commands
  ignore : p₁.ignore = p₂.ignore
  file : p₁.file = p₂.file
  line : p₁.line = p₂.line

structure Statement.SameShape (st₁ st₂ : Statement) : Prop where
  first : st₁.first.SameShape st₂.first
  fallbacks : List.Forall₂ Pipeline.SameShape st₁.fallbacks st₂.fallbacks

def Script.SameShape (t₁ t₂ : Script) : Prop := List.Forall₂ Statement.SameShape t₁.statements t₂.statements

theorem Redirection.SameShape.refl (r : Redirection) : r.SameShape r := by
  unfold SameShape
  cases r.target <;> simp

theorem Redirection.sameShape_toWord (fd : Int) (path₁ path₂ : List Char) (append : Bool) :
    (toWord fd path₁ append).SameShape (toWord fd path₂ append) := by
  refine ⟨rfl, ?_⟩
  dsimp only [toWord]
  have hWord : ∀ path, Target.ofPath path = .null ∨ Target.ofPath path = .file path := by
    intro path
    unfold Target.ofPath
    split <;> simp
  rcases hWord (String.ofList path₁) with h₁ | h₁ <;>
    rcases hWord (String.ofList path₂) with h₂ | h₂ <;> rw [h₁, h₂]
  · exact Bool.and_false append
  · exact Bool.and_false append
  · rfl

theorem Redirection.Alike.sameShape {Similar : List Char → List Char → Prop} {r₁ r₂ : Redirection}
    (h : r₁.Alike Similar r₂) : r₁.SameShape r₂ := by
  cases h with
  | same => exact .refl r₁
  | word fd append h => exact sameShape_toWord fd _ _ append

theorem Command.Alike.sameShape {Similar : List Char → List Char → Prop} {c₁ c₂ : Command}
    (h : c₁.Alike Similar c₂) : c₁.SameShape c₂ where
  args := h.args.length_eq
  env := by
    have hKeys : List.Forall₂ (fun k₁ k₂ => k₁ = k₂) (c₁.env.map Prod.fst) (c₂.env.map Prod.fst) :=
      List.rel_map (fun _ _ hEntry => hEntry.1) h.env
    rwa [List.forall₂_eq_eq_eq] at hKeys
  redirections := h.redirections.imp fun _ _ => Redirection.Alike.sameShape

namespace Pairing

/-- One text read with two tables that know the same names, all with values that are not empty. -/
def ofTables (file : String) (line : Int) {symbols₁ symbols₂ : Table}
    (hNames : ∀ name, (symbols₁.find? name).isSome = (symbols₂.find? name).isSome)
    (h₁ : ∀ name value, symbols₁.find? name = some value → value ≠ "")
    (h₂ : ∀ name value, symbols₂.find? name = some value → value ≠ "") :
    Pairing ⟨symbols₁, file, line⟩ ⟨symbols₂, file, line⟩ where
  offset := 0
  lines := 0
  tail := []
  Similar a b := a = [] ↔ b = []
  Excused _ := False
  similar_refl _ := Iff.rfl
  similar_append hab hcd := by
    rw [List.append_eq_nil_iff, List.append_eq_nil_iff, hab, hcd]
  similar_nil h := h
  values name := by
    refine .inl ?_
    have hName := hNames name
    have hValue₁ := h₁ name
    have hValue₂ := h₂ name
    dsimp only
    cases hFind₁ : symbols₁.find? name with
    | none =>
      have hNone : symbols₂.find? name = none := by simpa [hFind₁] using hName
      rw [hNone]
      exact .none
    | some value₁ =>
      obtain ⟨value₂, hFind₂⟩ : ∃ value₂, symbols₂.find? name = some value₂ := by
        rw [hFind₁] at hName
        exact Option.isSome_iff_exists.mp hName.symm
      rw [hFind₂]
      have hne₁ := hValue₁ value₁ hFind₁
      have hne₂ := hValue₂ value₂ hFind₂
      exact .some (by simp [hne₁, hne₂])
  stops := .inl rfl

theorem PipelineAlike.sameShape {symbols₁ symbols₂ : Table} {file : String} {line : Int}
    {P : Pairing ⟨symbols₁, file, line⟩ ⟨symbols₂, file, line⟩} (hLines : P.lines = 0) {p₁ p₂ : Pipeline}
    (h : P.PipelineAlike p₁ p₂) : p₁.SameShape p₂ := by
  obtain ⟨pos, ⟨hFile₁, hLine₁⟩, hFile₂, hLine₂⟩ := h.place
  refine ⟨h.commands.imp fun _ _ => Command.Alike.sameShape, h.ignore, hFile₁.trans hFile₂.symm, ?_⟩
  rw [hLine₁, hLine₂]
  simp [Setting.lineOf, Position.moved, hLines]

theorem StatementAlike.sameShape {symbols₁ symbols₂ : Table} {file : String} {line : Int}
    {P : Pairing ⟨symbols₁, file, line⟩ ⟨symbols₂, file, line⟩} (hLines : P.lines = 0)
    {st₁ st₂ : Statement} (h : P.StatementAlike st₁ st₂) : st₁.SameShape st₂ := by
  obtain ⟨hFirst, hFallbacks⟩ := List.forall₂_cons.mp h
  exact ⟨hFirst.sameShape hLines, hFallbacks.imp fun _ _ => PipelineAlike.sameShape hLines⟩

end Pairing

theorem Script.parse_sameShape (file : String) (line : Int) {symbols₁ symbols₂ : Table}
    (hNames : ∀ name, (symbols₁.find? name).isSome = (symbols₂.find? name).isSome)
    (h₁ : ∀ name value, symbols₁.find? name = some value → value ≠ "")
    (h₂ : ∀ name value, symbols₂.find? name = some value → value ≠ "") (text : String) :
    match Script.parse ⟨symbols₁, file, line⟩ text, Script.parse ⟨symbols₂, file, line⟩ text with
    | .ok t₁, .ok t₂ => t₁.SameShape t₂
    | .error m₁, .error m₂ => m₁ = m₂
    | _, _ => False := by
  let P := Pairing.ofTables file line hNames h₁ h₂
  have hStart : P.Meets ⟨.start, text.toList⟩ ⟨.start, text.toList⟩ :=
    .inl (P.lift_start rfl rfl rfl _).symm
  have hAgree : P.Agree Script.SameShape (Script.parse ⟨symbols₁, file, line⟩ text)
      (Script.parse ⟨symbols₂, file, line⟩ text) := by
    rw [Script.parse_eq, Script.parse_eq]
    refine (Pairing.skipHeader_agree (.inl rfl) hStart).bind ?_
    intro c₁ c₂ _ hMeets
    refine (Pairing.statements_agree (.inl rfl) rfl hMeets).map ?_
    intro sts₁ sts₂ _ hStatements
    exact hStatements.imp fun _ _ => Pairing.StatementAlike.sameShape rfl
  generalize Script.parse ⟨symbols₁, file, line⟩ text = first at hAgree
  generalize Script.parse ⟨symbols₂, file, line⟩ text = second at hAgree
  cases hAgree with
  | ok h => exact h
  | excused h => exact h.elim
  | @mistake m hFile hLine =>
    obtain ⟨kind, name, fragment, offset, mLine, col, mFile, fileLine⟩ := m
    cases hFile
    cases hLine
    simp [Pairing.moved, P, Pairing.ofTables]

/-- The second value spells a command, a redirection and a fallback, and stays one word. -/
theorem Script.parse_sameShape_operators :
    ∃ t₁ t₂, Script.parse ⟨[("v", "a")], "", 0⟩ "K=$v $v 2>>$v || x" = .ok t₁ ∧
      Script.parse ⟨[("v", "; b >c || ignore")], "", 0⟩ "K=$v $v 2>>$v || x" = .ok t₂ ∧
      t₁.SameShape t₂ := by
  let value : String := "; b >c || ignore"
  have hFirst : Script.parse ⟨[("v", "a")], "", 0⟩ "K=$v $v 2>>$v || x" =
      .ok ⟨[⟨⟨[⟨["a"], [("K", "a")], [⟨2, .file "a", true⟩]⟩], false, "", 1⟩,
        [⟨[⟨["x"], [], []⟩], false, "", 1⟩]⟩]⟩ := by decide +kernel
  have hSecond : Script.parse ⟨[("v", value)], "", 0⟩ "K=$v $v 2>>$v || x" =
      .ok ⟨[⟨⟨[⟨[value], [("K", value)], [⟨2, .file value, true⟩]⟩], false, "", 1⟩,
        [⟨[⟨["x"], [], []⟩], false, "", 1⟩]⟩]⟩ := by decide +kernel
  have hShape := @Script.parse_sameShape "" 0 [("v", "a")] [("v", value)]
    (fun name => by simp only [Table.find?]; split <;> rfl)
    (fun name found h => by simp only [Table.find?] at h; split at h <;> cases h; decide)
    (fun name found h => by simp only [Table.find?] at h; split at h <;> cases h; decide)
    "K=$v $v 2>>$v || x"
  rw [hFirst, hSecond] at hShape
  exact ⟨_, _, hFirst, hSecond, hShape⟩

end Pipework
