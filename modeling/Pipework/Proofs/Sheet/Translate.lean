import Mathlib.Data.List.Nodup
import Pipework.Proofs.Sheet.Row
import Pipework.Proofs.Text.Places

/-!
# Translating there and back

`tr` replaces each character of one set by the one at its place in another. With the sets the other way round it takes
this back, if the text had none of the characters that only the second set has: otherwise these could not be told from
those that have come in their place.
-/

namespace Pipework

/-- The command that replaces the characters of the set `source` by those of the set `target`. -/
def Command.tr (source target : String) : Command := ⟨["tr", source, target], [], []⟩

namespace Builtin

theorem mem_between {a b n : Nat} : n ∈ between a b ↔ a ≤ n ∧ n ≤ b ∨ b ≤ n ∧ n ≤ a := by
  unfold between
  split
  · rw [List.mem_map]
    constructor
    · rintro ⟨k, hk, rfl⟩
      rw [List.mem_range] at hk
      omega
    · intro hn
      exact ⟨n - a, List.mem_range.mpr (by omega), by omega⟩
  · rw [List.mem_map]
    constructor
    · rintro ⟨k, hk, rfl⟩
      rw [List.mem_range] at hk
      omega
    · intro hn
      exact ⟨a - n, List.mem_range.mpr (by omega), by omega⟩

/-- A number in a set is at most that of one of the characters that the set is written with. -/
theorem le_of_mem_expandSet {cs : List Char} {n : Nat} (h : n ∈ expandSet cs) : ∃ c ∈ cs, n ≤ c.toNat := by
  fun_induction expandSet cs with
  | case1 a b rest ih =>
    rcases List.mem_append.mp h with hRange | hRest
    · rcases mem_between.mp hRange with ⟨-, hb⟩ | ⟨-, ha⟩
      · exact ⟨b, by simp, hb⟩
      · exact ⟨a, by simp, ha⟩
    · obtain ⟨c, hc, hn⟩ := ih hRest
      exact ⟨c, by simp [hc], hn⟩
  | case2 a rest _ ih =>
    rcases List.mem_cons.mp h with rfl | hRest
    · exact ⟨a, by simp, Nat.le_refl _⟩
    · obtain ⟨c, hc, hn⟩ := ih hRest
      exact ⟨c, by simp [hc], hn⟩
  | case3 => cases h

theorem isValidChar_of_mem_expandSet {cs : List Char} {n : Nat} (h : n ∈ expandSet cs)
    (hReal : ¬(0xD800 ≤ n ∧ n < 0xE000)) : n.isValidChar := by
  obtain ⟨c, -, hc⟩ := le_of_mem_expandSet h
  have hBound := Utf8.toNat_lt c
  unfold Nat.isValidChar
  omega

theorem toNat_charOfNat {n : Nat} (h : n.isValidChar) : (charOfNat n).toNat = n := by
  rw [charOfNat, if_pos h, Utf8.toNat_ofNat_of_isValidChar h]

theorem charOfNat_toNat (c : Char) : charOfNat c.toNat = c := by
  have hValid : c.toNat.isValidChar := c.valid
  rw [charOfNat, if_pos hValid]
  exact Char.ofNat_toNat c

/-- Each character of `s` has one of its own in `t` to be replaced by. -/
structure Replaces (s t : List Nat) : Prop where
  length : s.length = t.length
  source : s.Nodup
  target : t.Nodup
  valid : ∀ n ∈ t, n.isValidChar

section Apply

variable {s t : List Nat} {c : Char}

theorem apply_of_not_mem (hc : c.toNat ∉ s) : (⟨s, some t⟩ : Mapping).apply c = some c := by
  have hNone : s.findIdx? (· = c.toNat) = none := by
    rw [List.findIdx?_eq_none_iff]
    intro n hn
    exact decide_eq_false fun hSame => hc (hSame ▸ hn)
  rw [Mapping.apply, hNone]

theorem apply_getElem {i : Nat} (hNodup : s.Nodup) (hi : i < s.length) (hi' : i < t.length) (hc : s[i] = c.toNat) :
    (⟨s, some t⟩ : Mapping).apply c = some (charOfNat t[i]) := by
  have hIndex : s.findIdx? (· = c.toNat) = some i := by
    rw [List.findIdx?_eq_some_iff_getElem]
    refine ⟨hi, decide_eq_true hc, fun j hj => ?_⟩
    rw [decide_eq_true_eq, ← hc, hNodup.getElem_inj_iff]
    omega
  have hLast : min i (t.length - 1) = i := by omega
  rw [Mapping.apply, hIndex]
  dsimp only
  rw [hLast, List.getElem?_eq_getElem hi', Option.map_some, Option.getD_some]

/-- A character is translated back to itself, unless only the second set has it. -/
theorem Replaces.there_and_back (h : Replaces s t) (hc : c.toNat ∈ t → c.toNat ∈ s) :
    ∃ d, (⟨s, some t⟩ : Mapping).apply c = some d ∧ (d.toNat ∈ s → d.toNat ∈ t) ∧
      (⟨t, some s⟩ : Mapping).apply d = some c := by
  by_cases hMem : c.toNat ∈ s
  · obtain ⟨i, hi, hGet⟩ := List.getElem_of_mem hMem
    have hi' : i < t.length := h.length ▸ hi
    have hTarget : t[i] ∈ t := List.getElem_mem hi'
    have hNat : (charOfNat t[i]).toNat = t[i] := toNat_charOfNat (h.valid _ hTarget)
    refine ⟨charOfNat t[i], apply_getElem h.source hi hi' hGet, fun _ => hNat ▸ hTarget, ?_⟩
    rw [apply_getElem h.target hi' hi hNat.symm, hGet, charOfNat_toNat]
  · exact ⟨c, apply_of_not_mem hMem, fun hd => absurd hd hMem, apply_of_not_mem fun hd => hMem (hc hd)⟩

theorem Replaces.text_there_and_back (h : Replaces s t) {cs : List Char} (hcs : ∀ c ∈ cs, c.toNat ∈ t → c.toNat ∈ s) :
    ∃ ds, cs.filterMap (⟨s, some t⟩ : Mapping).apply = ds ∧ ds.length = cs.length ∧
      (∀ d ∈ ds, d.toNat ∈ s → d.toNat ∈ t) ∧ ds.filterMap (⟨t, some s⟩ : Mapping).apply = cs := by
  induction cs with
  | nil => exact ⟨[], rfl, rfl, List.forall_mem_nil _, rfl⟩
  | cons c cs ih =>
    obtain ⟨hFirst, hRest⟩ := List.forall_mem_cons.mp hcs
    obtain ⟨d, hThere, hMem, hBack⟩ := h.there_and_back hFirst
    obtain ⟨ds, hTheres, hLength, hMems, hBacks⟩ := ih hRest
    refine ⟨d :: ds, ?_, by simp [hLength], List.forall_mem_cons.mpr ⟨hMem, hMems⟩, ?_⟩
    · rw [List.filterMap_cons_some hThere, hTheres]
    · rw [List.filterMap_cons_some hBack, hBacks]

end Apply

theorem ofArgs_sets {source target : String} (hFlag : source ≠ "-d") (hSome : expandSet target.toList ≠ []) :
    Mapping.ofArgs [source, target] = .ok ⟨expandSet source.toList, some (expandSet target.toList)⟩ := by
  unfold Mapping.ofArgs
  split
  · next hArgs => exact absurd (List.cons.inj hArgs).1 hFlag
  · next hArgs => exact absurd (List.cons.inj hArgs).1 hFlag
  · next hArgs =>
    cases hArgs
    split
    · next hNone => exact absurd hNone hSome
    · rfl
  · next hOther => exact absurd rfl (hOther source target)

theorem on_tr {inMemory : Bool} {t : FileTree} {x : Bytes} {p : Proc} {m : Mapping}
    (h : Mapping.ofArgs p.args.tail = .ok m) :
    (tr p).on inMemory ⟨t, x, []⟩ =
      some (.ok (), ⟨t, [], Utf8.encode ((Utf8.decode x).filterMap m.apply)⟩) := by
  unfold tr
  rw [h]
  exact (Task.on_bind_ok (Task.on_readAll _) _).trans (Task.on_pour _ _)

end Builtin

namespace Invoker

open Builtin (expandSet)

theorem does_tr {v : Invoker} {w : World} {source target : String} {t : FileTree} {x : Bytes}
    (hTr : w.builtin? "tr" = some (.concurrent Builtin.tr)) (hFlag : source ≠ "-d")
    (hSome : expandSet target.toList ≠ []) :
    v.Does w (.tr source target) ⟨t, x, []⟩ none ⟨t, [], Utf8.encode ((Utf8.decode x).filterMap
      (Builtin.Mapping.mk (expandSet source.toList) (some (expandSet target.toList))).apply)⟩ :=
  ⟨rfl, _, hTr, rfl, fun _ => ⟨.ok (), Builtin.on_tr (Builtin.ofArgs_sets hFlag hSome), rfl⟩⟩

/-- Of two sets with as many characters in each, none of them repeated, a text has characters of the second only where
they are in the first as well. Translated from the first to the second, it keeps its length and has characters of the
first only where they are in the second as well; translated back, it is the text again. This is under one schedule, the
engine's, in which no stage leaves before an earlier one; each `tr` reads all of its input before it writes. -/
theorem translates_back (v : Invoker) (nested : Nested) {output : Output} {phase : Phase} {front : List Command}
    {t : FileTree} {x : Bytes} {source target : String} (hOutput : output ≠ .consumer)
    (hTr : phase.world.builtin? "tr" = some (.concurrent Builtin.tr)) (hSourceFlag : source ≠ "-d")
    (hTargetFlag : target ≠ "-d") (hSome : expandSet source.toList ≠ [])
    (hLength : (expandSet source.toList).length = (expandSet target.toList).length)
    (hSource : (expandSet source.toList).Nodup) (hTarget : (expandSet target.toList).Nodup)
    (hReal : ∀ n ∈ expandSet target.toList, ¬(0xD800 ≤ n ∧ n < 0xE000))
    (hFront : v.Row phase.world front phase.world.memory phase.world.input t x) (hValid : Utf8.isValid x = true)
    (hOnly : ∀ c ∈ Utf8.decode x, c.toNat ∈ expandSet target.toList → c.toNat ∈ expandSet source.toList) :
    ∃ text : List Char, text.length = (Utf8.decode x).length ∧
      (∀ c ∈ text, c.toNat ∈ expandSet source.toList → c.toNat ∈ expandSet target.toList) ∧
      ∀ p : Pipeline,
        (p.commands = front ++ [.tr source target] →
          ∃ phase', v.runPipeline nested output p phase = .done (none, output.captured (Utf8.encode text)) phase' ∧
            phase'.world.output = phase.world.output ++ output.printed (Utf8.encode text)) ∧
        (p.commands = front ++ [.tr source target, .tr target source] →
          ∃ phase', v.runPipeline nested output p phase = .done (none, output.captured x) phase' ∧
            phase'.world.output = phase.world.output ++ output.printed x) := by
  have hTargetSome : expandSet target.toList ≠ [] := by
    rw [← List.length_pos_iff, ← hLength]
    exact List.length_pos_iff.mpr hSome
  have hReplaces : Builtin.Replaces (expandSet source.toList) (expandSet target.toList) :=
    ⟨hLength, hSource, hTarget, fun n hn => Builtin.isValidChar_of_mem_expandSet hn (hReal n hn)⟩
  obtain ⟨text, hThere, hSame, hMem, hBack⟩ := hReplaces.text_there_and_back hOnly
  have hFirst : v.Does phase.world (.tr source target) ⟨t, x, []⟩ none ⟨t, [], Utf8.encode text⟩ :=
    hThere ▸ does_tr hTr hSourceFlag hTargetSome
  have hSecond : v.Does phase.world (.tr target source) ⟨t, Utf8.encode text, []⟩ none ⟨t, [], x⟩ := by
    have hDoes := does_tr (v := v) (t := t) (x := Utf8.encode text) hTr hTargetFlag hSome
    rwa [Utf8.decode_encode, hBack, Utf8.encode_decode hValid] at hDoes
  refine ⟨text, hSame, hMem, fun p => ⟨fun hp => ?_, fun hp => ?_⟩⟩
  · obtain ⟨phase', hRun, -, hPrinted, -⟩ := runPipeline_row nested hp hOutput hFront hFirst
    exact ⟨phase', hRun, hPrinted⟩
  · have hCommands : p.commands = front ++ [.tr source target] ++ [.tr target source] := by simp [hp]
    obtain ⟨phase', hRun, -, hPrinted, -⟩ := runPipeline_row nested hCommands hOutput (hFront.concat hFirst) hSecond
    exact ⟨phase', hRun, hPrinted⟩

/-- A world with the builtins on text, whose files are those of the host, and an input of four characters. -/
def accented : Phase :=
  ⟨{ World.bench [] with
      builtins := Builtin.text ++ Builtin.standard, inMemory := false, input := utf8 "badé" }, .opened, false, false⟩

theorem translates_back_accented :
    ∃ text phase' phase'', text.length = 4 ∧
      Invoker.bench.runPipeline (nestedRun [] 0) .capture ⟨[.tr "a-d" "f-c"], false, "", 1⟩ accented =
        .done (none, Utf8.encode text) phase' ∧
      Invoker.bench.runPipeline (nestedRun [] 0) .capture ⟨[.tr "a-d" "f-c", .tr "f-c" "a-d"], false, "", 1⟩ accented =
        .done (none, utf8 "badé") phase'' := by
  have hSource : expandSet "a-d".toList = [97, 98, 99, 100] := by decide +kernel
  have hTarget : expandSet "f-c".toList = [102, 101, 100, 99] := by decide +kernel
  have hText : Utf8.decode accented.world.input = ['b', 'a', 'd', 'é'] := Utf8.decode_encode _
  have hOnly : ∀ c ∈ Utf8.decode accented.world.input,
      c.toNat ∈ expandSet "f-c".toList → c.toNat ∈ expandSet "a-d".toList := by
    rw [hText, hSource, hTarget]
    simp
  obtain ⟨text, hLength, -, hRuns⟩ := @translates_back .bench (nestedRun [] 0) .capture accented [] _ _ "a-d" "f-c"
    (by decide) rfl (by decide) (by decide) (by rw [hSource]; decide) (by rw [hSource, hTarget]; rfl)
    (by rw [hSource]; decide) (by rw [hTarget]; decide) (by rw [hTarget]; decide) .nil (Utf8.isValid_encode _) hOnly
  obtain ⟨phase', hRun, -⟩ := (hRuns ⟨[.tr "a-d" "f-c"], false, "", 1⟩).1 rfl
  obtain ⟨phase'', hRun', -⟩ := (hRuns ⟨[.tr "a-d" "f-c", .tr "f-c" "a-d"], false, "", 1⟩).2 rfl
  exact ⟨text, phase', phase'', hLength.trans (by rw [hText]; rfl), hRun, hRun'⟩

end Invoker

end Pipework
