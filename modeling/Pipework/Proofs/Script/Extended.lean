import Pipework.Proofs.Script.Pairing.Script

/-!
# More values

A script is read with a table of values, and only the names that it mentions count. With a table that
has more values, a script that reads well is read as before, and so is every mistake but one: a name
that had no value may have one now.
-/

namespace Pipework

theorem Table.extends_merge {t top : Table}
    (h : ∀ name value, top.find? name = some value → t.find? name = none) : t.Extends (t.merge top) := by
  intro name value hFind
  cases hTop : top.find? name with
  | none => rw [find?_merge, hTop, hFind, Option.none_or]
  | some other =>
    rw [h name other hTop] at hFind
    cases hFind

theorem Script.parse_extends (file : String) (line : Int) {symbols symbols' : Table}
    (h : symbols.Extends symbols') (text : String) :
    (∀ t, Script.parse ⟨symbols, file, line⟩ text = .ok t → Script.parse ⟨symbols', file, line⟩ text = .ok t) ∧
    (∀ m, Script.parse ⟨symbols, file, line⟩ text = .error m → m.kind ≠ .unresolvedVariable →
      Script.parse ⟨symbols', file, line⟩ text = .error m) ∧
    ∀ m, Script.parse ⟨symbols, file, line⟩ text = .error m → m.kind = .unresolvedVariable →
      symbols'.find? m.name = none → Script.parse ⟨symbols', file, line⟩ text = .error m := by
  let P : Pairing ⟨symbols, file, line⟩ ⟨symbols', file, line⟩ := .ofExtension h
  have hAgree := Pairing.parse_relined (P := P) (f := id) rfl rfl (fun _ => rfl) rfl rfl rfl text
  have hMoved : ∀ m : Mistake, m.file = file → m.fileLine = line → P.moved m = m := by
    rintro ⟨kind, name, fragment, offset, mLine, col, mFile, fileLine⟩ hFile hLine
    cases hFile
    cases hLine
    simp [Pairing.moved, P, Pairing.ofExtension]
  generalize Script.parse ⟨symbols, file, line⟩ text = first at hAgree ⊢
  generalize Script.parse ⟨symbols', file, line⟩ text = second at hAgree ⊢
  cases hAgree with
  | @ok t₁ t₂ hSame =>
    rw [hSame, Script.relined_id]
    refine ⟨fun _ hOk => hOk, ?_, ?_⟩
    all_goals
      rintro _ ⟨⟩
  | @excused m _ hExcused _ =>
    obtain ⟨hKind, hFound⟩ := hExcused
    refine ⟨by rintro _ ⟨⟩, ?_, ?_⟩
    · rintro _ ⟨⟩ hOther
      exact absurd hKind hOther
    · rintro _ ⟨⟩ - hNone
      exact absurd hNone hFound
  | @mistake m hFile hLine =>
    rw [hMoved m hFile hLine]
    refine ⟨by rintro _ ⟨⟩, ?_, ?_⟩
    · exact fun _ hError _ => hError
    · exact fun _ hError _ _ => hError

/-- The value of `w` changes nothing before the name is reached. -/
theorem Script.parse_extends_merged :
    let t : Table := [("v", "a")]
    let t' := t.merge [("w", "b")]
    t.Extends t' ∧
      Script.parse ⟨t', "", 0⟩ "x \"$v\" >f" =
        .ok ⟨[⟨⟨[⟨["x", "a"], [], [⟨1, .file "f", false⟩]⟩], false, "", 1⟩, []⟩]⟩ ∧
      Script.parse ⟨t', "", 0⟩ "x 3>$v $w" = .error ⟨.unsupportedDescriptor, "", "3>", 2, 1, 3, "", 0⟩ ∧
      Script.parse ⟨t', "", 0⟩ "x $v $u $w" = .error ⟨.unresolvedVariable, "u", "$u", 5, 1, 6, "", 0⟩ := by
  intro t t'
  have hExtends : t.Extends t' := by
    refine Table.extends_merge fun name value hFind => ?_
    simp only [Table.find?] at hFind
    split at hFind
    · next hName =>
      subst hName
      decide
    · cases hFind
  have hParse := fun text => Script.parse_extends "" 0 hExtends text
  refine ⟨hExtends, ?_, ?_, ?_⟩
  · exact (hParse _).1 _ (by decide +kernel)
  · exact (hParse _).2.1 _ (by decide +kernel) (by decide)
  · exact (hParse _).2.2 _ (by decide +kernel) (by decide) (by decide)

end Pipework
