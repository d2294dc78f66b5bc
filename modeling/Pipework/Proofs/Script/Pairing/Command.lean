import Pipework.Proofs.Script.Pairing.Word

/-!
# Paired commands

The commands of two paired readings have similar words in the same places. Redirections to similar
words may still differ in one way: one of the words may be the name of the null device.
-/

namespace Pipework

open Cursor Setting

/-- The redirection of `fd` to the word `path`, which keeps what a file holds if `append` says so. -/
def Redirection.toWord (fd : Int) (path : List Char) (append : Bool) : Redirection :=
  ⟨fd, .ofPath (String.ofList path), append && Target.ofPath (String.ofList path) != .null⟩

inductive Redirection.Alike (Similar : List Char → List Char → Prop) : Redirection → Redirection → Prop
  | same (r : Redirection) : Alike Similar r r
  | word (fd : Int) (append : Bool) {path₁ path₂ : List Char} (h : Similar path₁ path₂) :
    Alike Similar (.toWord fd path₁ append) (.toWord fd path₂ append)

structure Command.Alike (Similar : List Char → List Char → Prop) (c₁ c₂ : Command) : Prop where
  args : List.Forall₂ (fun a b => Similar a.toList b.toList) c₁.args c₂.args
  env : List.Forall₂ (fun a b => a.1 = b.1 ∧ Similar a.2.toList b.2.toList) c₁.env c₂.env
  redirections : List.Forall₂ (Redirection.Alike Similar) c₁.redirections c₂.redirections

theorem Redirection.Alike.eq {r₁ r₂ : Redirection} (h : r₁.Alike Eq r₂) : r₁ = r₂ := by
  cases h with
  | same => rfl
  | word fd append h => rw [h]

theorem Command.Alike.eq {c₁ c₂ : Command} (h : c₁.Alike Eq c₂) : c₁ = c₂ := by
  obtain ⟨args₁, env₁, redirections₁⟩ := c₁
  obtain ⟨args₂, env₂, redirections₂⟩ := c₂
  have hArgs : args₁ = args₂ :=
    List.forall₂_eq_eq_eq ▸ h.args.imp fun _ _ hText => String.toList_inj.mp hText
  have hEnv : env₁ = env₂ :=
    List.forall₂_eq_eq_eq ▸ h.env.imp fun _ _ hEntry => Prod.ext hEntry.1 (String.toList_inj.mp hEntry.2)
  have hRedirections : redirections₁ = redirections₂ :=
    List.forall₂_eq_eq_eq ▸ h.redirections.imp fun _ _ => Redirection.Alike.eq
  rw [hArgs, hEnv, hRedirections]

theorem Table.forall₂_insert {R : String → String → Prop} {t₁ t₂ : Table} (key : String) {v₁ v₂ : String}
    (h : List.Forall₂ (fun a b => a.1 = b.1 ∧ R a.2 b.2) t₁ t₂) (hv : R v₁ v₂) :
    List.Forall₂ (fun a b => a.1 = b.1 ∧ R a.2 b.2) (t₁.insert key v₁) (t₂.insert key v₂) := by
  induction h with
  | nil => exact .cons ⟨rfl, hv⟩ .nil
  | @cons a b t₁ t₂ hEntry hRest ih =>
    obtain ⟨k, v⟩ := a
    obtain ⟨k', v'⟩ := b
    obtain ⟨rfl, hValue⟩ := hEntry
    rw [Table.insert, Table.insert]
    split
    · exact .cons ⟨rfl, hv⟩ hRest
    · split
      · exact .cons ⟨rfl, hv⟩ (.cons ⟨rfl, hValue⟩ hRest)
      · exact .cons ⟨rfl, hValue⟩ ih

theorem forall₂_beq_nil {α β : Type} [BEq α] [BEq β] {R : α → β → Prop} {l₁ : List α} {l₂ : List β}
    (h : List.Forall₂ R l₁ l₂) : (l₁ == []) = (l₂ == []) := by
  cases h <;> rfl

structure Setting.Draft.Alike (Similar : List Char → List Char → Prop) (d₁ d₂ : Draft) : Prop where
  command : d₁.command.Alike Similar d₂.command
  ignore : d₁.ignore = d₂.ignore

namespace Pairing

variable {s₁ s₂ : Setting} (P : Pairing s₁ s₂)

theorem skipBlanks_lift {c : Cursor} (h : c.skipBlanks.rest ≠ [] ∨ P.tail = []) :
    (P.lift c).skipBlanks = P.lift c.skipBlanks :=
  P.skipWhile_lift (h.imp_right fun hNil => by simp [hNil])

theorem skipComment_lift (c : Cursor) : (P.lift c).skipComment = P.lift c.skipComment :=
  P.skipWhile_lift (.inr (P.stops_head (by decide)))

theorem atComment_cons {c : Cursor} {x y : Char} {rest : List Char} (h : c.rest = x :: y :: rest) :
    c.atComment = (x == '/' && y == '/' &&
      rest.head?.all fun z => z.toNat == 0 || isBlank z || c.pos.fresh) := by
  by_cases hSlashes : x = '/' ∧ y = '/'
  · obtain ⟨rfl, rfl⟩ := hSlashes
    cases rest <;> simp [atComment, h]
  · have hOther : c.atComment = false := by
      unfold atComment
      split
      · next hRest =>
        rw [h] at hRest
        cases hRest
        exact absurd ⟨rfl, rfl⟩ hSlashes
      · rfl
    rw [hOther]
    grind

theorem atComment_lift (c : Cursor) : (P.lift c).atComment = c.atComment := by
  obtain ⟨pos, rest⟩ := c
  have hSlash := P.stops_head (p := (· == '/')) (by decide)
  have hBlank := P.stops_head (p := fun y => !isBlank y) (by decide)
  cases hTail : P.tail with
  | nil => simp [atComment, lift, hTail, Position.moved]
  | cons y tail =>
    simp only [hTail, List.head?_cons, Option.mem_some_iff, forall_eq', beq_eq_false_iff_ne,
      Bool.not_eq_false'] at hSlash hBlank
    -- Up to two slashes may stand right before the end of the first text.
    rcases rest with _ | ⟨x, _ | ⟨z, _ | ⟨u, rest⟩⟩⟩
    · simp [atComment, lift, hTail, hSlash]
    · simp [atComment, lift, hTail, hSlash]
    · have hRest : (P.lift ⟨pos, [x, z]⟩).rest = x :: z :: y :: tail := by simp [hTail]
      rw [atComment_cons hRest, @atComment_cons ⟨pos, [x, z]⟩ _ _ _ rfl]
      simp [hBlank]
    · have hRest : (P.lift ⟨pos, x :: z :: u :: rest⟩).rest = x :: z :: u :: (rest ++ P.tail) := rfl
      rw [atComment_cons hRest, @atComment_cons ⟨pos, x :: z :: u :: rest⟩ _ _ _ rfl]
      rfl

def TargetAlike (a b : Target × Cursor) : Prop :=
  (∃ path₁ path₂, P.Similar path₁ path₂ ∧ a.1 = .ofPath (String.ofList path₁) ∧
    b.1 = .ofPath (String.ofList path₂)) ∧ b.2 = P.lift a.2

theorem target_agree (op c : Cursor) :
    P.Agree P.TargetAlike (s₁.target op c) (s₂.target (P.lift op) (P.lift c)) := by
  cases hRest : c.skipBlanks.rest with
  | nil =>
    rw [target_nil hRest]
    rcases P.stops with hNil | ⟨-, hExcused⟩
    · have hLift := P.skipBlanks_lift (c := c) (.inr hNil)
      rw [target_nil (by simp [hLift, hRest, hNil]), hLift]
      exact P.agree_mistake _ _ _ rfl
    · refine .excused (hExcused _) fun hEnds => ?_
      rw [target_nil (P.skipWhile_lift_nil hEnds (by decide) hRest)]
      exact ⟨_, rfl⟩
  | cons x rest =>
    have hLift := P.skipBlanks_lift (c := c) (.inl (by simp [hRest]))
    rw [target_cons hRest, target_cons (hLift ▸ P.rest_lift_cons hRest), hLift]
    split
    · exact P.agree_mistake _ _ _ (by simp [Position.moved, Nat.add_right_comm])
    · split
      · exact P.agree_mistake _ _ _ (by simp [Position.moved, Nat.add_right_comm])
      · refine (P.word_agree c.skipBlanks).bind ?_
        rintro ⟨w₁, c₁⟩ ⟨w₂, c₂⟩ - ⟨hWord, rfl⟩
        have hSimilar := P.text_similar hWord
        have hNil := P.similar_nil hSimilar
        dsimp only
        by_cases hText : w₁.text = []
        · rw [if_pos hText, if_pos (hNil.mp hText)]
          exact P.agree_mistake _ _ _ rfl
        · rw [if_neg hText, if_neg (mt hNil.mpr hText)]
          exact .ok ⟨⟨_, _, hSimilar, rfl, rfl⟩, rfl⟩

def RedirectionsAlike (a b : List Redirection × Cursor) : Prop :=
  List.Forall₂ (Redirection.Alike P.Similar) a.1 b.1 ∧ b.2 = P.lift a.2

theorem redirectInput_agree {op : Cursor} (h : op.rest ≠ []) :
    P.Agree P.RedirectionsAlike (s₁.redirectInput op) (s₂.redirectInput (P.lift op)) := by
  rw [redirectInput_eq, redirectInput_eq, P.advance_lift h, P.at?_lift _ (by decide), P.at?_lift _ (by decide)]
  split
  · exact P.agree_mistake _ _ _ (by simp [Position.moved, Nat.add_right_comm])
  · refine (P.target_agree op op.advance).map ?_
    rintro ⟨_, c₁⟩ ⟨_, c₂⟩ - ⟨⟨path₁, path₂, hSimilar, rfl, rfl⟩, hCursor⟩
    exact ⟨.cons (.word 0 false hSimilar) .nil, hCursor⟩

theorem afterOutput_lift {op : Cursor} (h : op.rest ≠ []) :
    afterOutput (P.lift op) = P.lift (afterOutput op) := by
  unfold afterOutput
  rw [P.advance_lift h, P.at?_lift _ (by decide)]
  split
  · next hGreater => rw [P.advance_lift (rest_ne_nil_of_at hGreater)]
  · rfl

theorem redirectOutput_agree (fd : Nat) (both : Bool) {op : Cursor} (h : op.rest ≠ []) :
    P.Agree P.RedirectionsAlike (s₁.redirectOutput fd both op) (s₂.redirectOutput fd both (P.lift op)) := by
  rw [redirectOutput_eq, redirectOutput_eq, P.afterOutput_lift h, P.advance_lift h, P.at?_lift _ (by decide),
    P.at?_lift _ (by decide)]
  split
  · next hAmpersand =>
    rw [P.advance_lift (rest_ne_nil_of_at hAmpersand), P.span_lift (.inr (P.stops_head (by decide)))]
    dsimp only
    split
    · exact P.agree_mistake _ _ _ rfl
    · split
      · exact .ok ⟨.cons (.same _) .nil, rfl⟩
      · exact P.agree_mistake _ _ _ rfl
  · refine (P.target_agree op (afterOutput op)).map ?_
    rintro ⟨_, c₁⟩ ⟨_, c₂⟩ - ⟨⟨path₁, path₂, hSimilar, rfl, rfl⟩, hCursor⟩
    refine ⟨?_, hCursor⟩
    dsimp only [outputTo]
    split
    · exact .cons (.word 2 _ hSimilar) (.cons (.same _) .nil)
    · exact .cons (.word fd _ hSimilar) .nil

def DraftAlike (a b : Draft × Cursor) : Prop := a.1.Alike P.Similar b.1 ∧ b.2 = P.lift a.2

variable {d₁ d₂ : Draft}

theorem addArg_alike {w₁ w₂ : Word} (hd : d₁.Alike P.Similar d₂) (hw : w₁.Alike P.Similar w₂) :
    (d₁.addArg (String.ofList w₁.text)).Alike P.Similar (d₂.addArg (String.ofList w₂.text)) where
  command.args := List.rel_append hd.command.args (.cons (by simpa using P.text_similar hw) .nil)
  command.env := hd.command.env
  command.redirections := hd.command.redirections
  ignore := hd.ignore

theorem addWord_alike (first : Bool) {w₁ w₂ : Word} (hd : d₁.Alike P.Similar d₂)
    (hw : w₁.Alike P.Similar w₂) : (d₁.addWord first w₁).Alike P.Similar (d₂.addWord first w₂) := by
  unfold Draft.addWord
  rw [hw.spells, hw.spells, bne, bne, forall₂_beq_nil hd.command.args, forall₂_beq_nil hd.command.env,
    hd.ignore]
  split
  · exact hd
  · split
    · exact P.addArg_alike hd hw
    · split
      · exact ⟨hd.command, rfl⟩
      · have hAssign := P.assignment?_alike hw
        revert hAssign
        generalize w₁.assignment? = a₁
        generalize w₂.assignment? = a₂
        intro hAssign
        cases hAssign with
        | none => exact P.addArg_alike hd hw
        | @some a b h =>
          obtain ⟨key, v₁⟩ := a
          obtain ⟨_, v₂⟩ := b
          obtain ⟨rfl, hValue⟩ := h
          have hEnv := Table.forall₂_insert (R := fun a b => P.Similar a.toList b.toList) key
            hd.command.env hValue
          exact ⟨⟨hd.command.args, hEnv, hd.command.redirections⟩, hd.ignore⟩

theorem addRedirections_agree (hd : d₁.Alike P.Similar d₂)
    {e₁ e₂ : Except Mistake (List Redirection × Cursor)} (h : P.Agree P.RedirectionsAlike e₁ e₂) :
    P.Agree P.DraftAlike (e₁.map fun (rs, c) => (d₁.addRedirections rs, c))
      (e₂.map fun (rs, c) => (d₂.addRedirections rs, c)) := by
  refine h.map ?_
  rintro ⟨rs₁, c₁⟩ ⟨rs₂, c₂⟩ - ⟨hrs, hCursor⟩
  exact ⟨⟨⟨hd.command.args, hd.command.env, List.rel_append hd.command.redirections hrs⟩, hd.ignore⟩, hCursor⟩

theorem takeWord_agree (first : Bool) (hd : d₁.Alike P.Similar d₂) (start c : Cursor) {w₁ w₂ : Word}
    (hw : w₁.Alike P.Similar w₂) :
    P.Agree P.DraftAlike (s₁.takeWord first d₁ start w₁ c)
      (s₂.takeWord first d₂ (P.lift start) w₂ (P.lift c)) := by
  unfold takeWord
  dsimp only
  rw [P.at?_lift c (by decide), P.at?_lift c (by decide), ← hw.spells, ← hw.isNumber]
  split
  · next hBoth =>
    have hne := rest_ne_nil_of_at (Bool.and_eq_true_iff.mp hBoth).1
    exact P.addRedirections_agree hd (P.redirectOutput_agree 2 true hne)
  · split
    · next hNumber =>
      obtain ⟨hGreater, hNumber⟩ := Bool.and_eq_true_iff.mp hNumber
      rw [← hw.text_eq hNumber]
      split
      · exact P.addRedirections_agree hd (P.redirectOutput_agree _ false (rest_ne_nil_of_at hGreater))
      · exact P.agree_mistake _ _ _ (by simp [Position.moved, Nat.add_right_comm])
    · split
      · next hNumber =>
        obtain ⟨hLess, hNumber⟩ := Bool.and_eq_true_iff.mp hNumber
        rw [← hw.text_eq hNumber]
        split
        · exact P.addRedirections_agree hd (P.redirectInput_agree (rest_ne_nil_of_at hLess))
        · exact P.agree_mistake _ _ _ (by simp [Position.moved, Nat.add_right_comm])
      · exact .ok ⟨P.addWord_alike first hd hw, rfl⟩

theorem commandPart_agree (first : Bool) (hd : d₁.Alike P.Similar d₂) (c : Cursor) :
    P.Agree P.DraftAlike (s₁.commandPart first d₁ c) (s₂.commandPart first d₂ (P.lift c)) := by
  rw [commandPart_eq, commandPart_eq, P.atComment_lift, P.at?_lift c (by decide), P.at?_lift c (by decide)]
  split
  · rw [P.skipComment_lift]
    exact .ok ⟨hd, rfl⟩
  · split
    · next hLess => exact P.addRedirections_agree hd (P.redirectInput_agree (rest_ne_nil_of_at hLess))
    · split
      · next hGreater =>
        exact P.addRedirections_agree hd (P.redirectOutput_agree 1 false (rest_ne_nil_of_at hGreater))
      · refine (P.word_agree c).bind ?_
        rintro ⟨w₁, c₁⟩ ⟨w₂, c₂⟩ - ⟨hWord, rfl⟩
        exact P.takeWord_agree first hd c c₁ hWord

end Pairing

end Pipework
