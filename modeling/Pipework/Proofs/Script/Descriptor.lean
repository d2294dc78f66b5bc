import Pipework.Proofs.Script.Rendered.Reading

/-!
# The numbers of descriptors

A redirection may begin with the number of its descriptor, and a copy of a descriptor ends in one. Such
a number may have any length: it is read as its exact value, except that a value beyond 64 bits is read
as the largest that fits, which is no descriptor either. So leading zeros change nothing, no number is
cut down to a descriptor, and what is not a descriptor for its operator is rejected as such.
-/

namespace Pipework

open Cursor Setting

namespace Setting

variable (s : Setting)

/-- In front of a blank the text is read as the beginning `d` of a command, which has its first word. -/
structure Opens (text : String) (d : Draft) : Prop where
  starts : Starts text.toList
  args_ne_nil : d.command.args ≠ []
  reads : ∀ c blank rest, isBlank blank = true → c.rest = text.toList ++ blank :: rest →
    ∃ c', c'.rest = blank :: rest ∧ s.commandFrom true .empty c = s.commandFrom true d c'

variable {s}

/-- Any word will do, however it is written, if it is read up to the blank and becomes an argument. -/
theorem Opens.of_word {text : String} {w : Word} (hStarts : Starts text.toList)
    (hOther : ∀ x ∈ text.toList.head?, isOperator x = false)
    (hWord : ∀ c blank rest, isBlank blank = true → c.rest = text.toList ++ blank :: rest →
      ∃ c', c'.rest = blank :: rest ∧ s.word c = .ok (w, c'))
    (hArgs : (Draft.empty.addWord true w).command.args ≠ []) : s.Opens text (Draft.empty.addWord true w) := by
  refine ⟨hStarts, hArgs, ?_⟩
  intro c blank rest hBlank hText
  have hHead : ∀ x, isBlank x = false → (blank :: rest).head? ≠ some x := by
    rintro _ hx ⟨⟩
    rw [hBlank] at hx
    cases hx
  have hBefore : Starts (text.toList ++ blank :: rest) := hStarts.append (hHead '/' (by decide))
  have hSame : c.skipBlanks = c := hBefore.skipBlanks_eq hText
  obtain ⟨c', hRest, hRead⟩ := hWord c blank rest hBlank hText
  have hPart := commandPart_word true .empty hBefore hOther hStarts.ne_nil hText hRead
    (by simpa [at?, hRest] using hHead '<' (by decide)) (by simpa [at?, hRest] using hHead '>' (by decide))
  refine ⟨c', hRest, ?_⟩
  rw [commandFrom_eq, hSame, hBefore.endsCommand_eq hText, hPart]
  rfl

theorem opens_word {word : String} (hPlain : IsPlainText word) (hComment : ¬"//".toList <+: word.toList)
    (h : TakesArgument true .empty word) : s.Opens word (Draft.empty.addArg word) := by
  rw [← addWord_of_argument hPlain.1 h]
  refine .of_word (hPlain.starts hComment) hPlain.head_isOperator ?_ ?_
  · intro c blank rest hBlank hText
    have hEnd : EndsWord (blank :: rest) := by
      rintro _ ⟨⟩
      rw [hBlank, Bool.true_or]
    exact hPlain.word_eq s hEnd hText
  · rw [addWord_of_argument hPlain.1 h]
    exact List.cons_ne_nil _ _

end Setting

/-- The reading gives `t` exactly if `accepted` holds, and otherwise it fails at a descriptor. -/
def AcceptedIff (accepted : Prop) (e : Except Mistake Script) (t : Script) : Prop :=
  (accepted → e = .ok t) ∧ (¬accepted → ∃ m, e = .error m ∧ m.kind = .unsupportedDescriptor)

namespace Setting

variable {s : Setting} {text : String} {d : Draft} (hOpens : s.Opens text d) {blank : Char}
  (hBlank : isBlank blank = true)

include hOpens hBlank

theorem acceptedIff_of_part {item : List Char} (hItem : Starts item) {accepted : Prop} {r : Redirection}
    (hPart : ∀ c, c.rest = item →
      (accepted → ∃ c', c'.rest = [] ∧ s.commandPart true d c = .ok (d.addRedirections [r], c')) ∧
        (¬accepted → ∃ m, s.commandPart true d c = .error m ∧ m.kind = .unsupportedDescriptor)) :
    AcceptedIff accepted (Script.parse s (text ++ String.ofList (blank :: item)))
      ((d.addRedirections [r]).alone s) := by
  let whole := text ++ String.ofList (blank :: item)
  have hText : whole.toList = text.toList ++ blank :: item := by simp [whole]
  have hSlash : (blank :: item).head? ≠ some '/' := by
    rintro ⟨⟩
    cases hBlank
  have hStarts : Starts whole.toList := hText ▸ hOpens.starts.append hSlash
  obtain ⟨c, hRest, hOpened⟩ := hOpens.reads ⟨.start, whole.toList⟩ blank item hBlank hText
  have hNext : c.skipBlanks.rest = item := hItem.skipBlanks_blank hBlank hRest
  obtain ⟨hOk, hError⟩ := hPart c.skipBlanks hNext
  constructor
  · intro hAccepted
    obtain ⟨c', hEnd, hDone⟩ := hOk hAccepted
    have hAll : s.commandFrom true .empty ⟨.start, whole.toList⟩ = .ok (d.addRedirections [r], c') := by
      rw [hOpened, commandFrom_eq, hItem.endsCommand_eq hNext, hDone]
      exact commandFrom_of_end _ (.inl hEnd)
    have hParsed := parse_alone hStarts fun e c₁ hOk => by
      cases hAll.symm.trans hOk
      exact ⟨hOpens.args_ne_nil, hEnd⟩
    rw [hParsed, hAll]
    rfl
  · intro hRejected
    obtain ⟨m, hMistake, hKind⟩ := hError hRejected
    have hAll : s.commandFrom true .empty ⟨.start, whole.toList⟩ = .error m := by
      rw [hOpened, commandFrom_eq, hItem.endsCommand_eq hNext, hMistake]
      rfl
    have hParsed := parse_alone hStarts fun e c₁ hOk => by cases hAll.symm.trans hOk
    refine ⟨m, ?_, hKind⟩
    rw [hParsed, hAll]
    rfl

end Setting

theorem isOutput_descriptorOf (ds : List Char) :
    isOutput (descriptorOf ds) = true ↔ Nat.ofDigitChars 10 ds 0 = 1 ∨ Nat.ofDigitChars 10 ds 0 = 2 := by
  rw [isOutput_iff, descriptorOf_eq_iff (by omega), descriptorOf_eq_iff (by omega)]
  exact Iff.rfl

theorem descriptorOf_of_output {ds : List Char}
    (h : Nat.ofDigitChars 10 ds 0 = 1 ∨ Nat.ofDigitChars 10 ds 0 = 2) :
    descriptorOf ds = Nat.ofDigitChars 10 ds 0 :=
  (descriptorOf_eq_iff (by omega)).mpr rfl

section Number

variable {ds : List Char} (hne : ds ≠ []) (hDigits : ∀ x ∈ ds, x.isDigit = true)

include hne hDigits

theorem starts_number (rest : List Char) : Starts (ds ++ rest) := by
  obtain ⟨x, ds, rfl⟩ := List.exists_cons_of_ne_nil hne
  have hName : isNameChar x = true := by rw [isNameChar, hDigits x List.mem_cons_self, Bool.or_true]
  have hPlain := isPlain_of_nameChar hName
  simp only [isPlain, Bool.not_eq_true', Bool.or_eq_false_iff] at hPlain
  exact .of_ne (List.cons_append ..) hPlain.1.1.1.1 (nameChar_ne hName rfl) (nameChar_ne hName rfl)
    (nameChar_ne hName rfl)

namespace Setting

variable {s : Setting} {text : String} {d : Draft} (hOpens : s.Opens text d) {blank : Char}
  (hBlank : isBlank blank = true)

include hOpens hBlank

theorem acceptedIff_output {target : List Char} {t : Target} (hTarget : s.TakesTarget target t [])
    (append : Bool) :
    AcceptedIff (Nat.ofDigitChars 10 ds 0 = 1 ∨ Nat.ofDigitChars 10 ds 0 = 2)
      (Script.parse s
        (text ++ String.ofList (blank :: (ds ++ (if append then ['>', '>'] else ['>']) ++ target))))
      ((d.addRedirections [⟨Nat.ofDigitChars 10 ds 0, t, append && t != .null⟩]).alone s) := by
  refine acceptedIff_of_part hOpens hBlank (by
    rw [List.append_assoc]
    exact starts_number hne hDigits _) ?_
  intro c hText
  have hMark : ∃ more, c.rest = ds ++ '>' :: more ∧
      '>' :: more = (if append then ['>', '>'] else ['>']) ++ (target ++ []) := by
    cases append
    · exact ⟨target, by simp [hText], by simp⟩
    · exact ⟨'>' :: target, by simp [hText], by simp⟩
  obtain ⟨more, hMark, hOperator⟩ := hMark
  obtain ⟨c₁, hRest, hPart⟩ := commandPart_number hne hDigits true d (.inl rfl) hMark
  rw [hPart, takeWord_output hne hDigits true d c (by simp [at?, hRest])]
  constructor
  · intro hOutput
    obtain ⟨c', hEnd, hOk⟩ := redirectOutput_target hTarget (descriptorOf ds) append (hRest.trans hOperator)
    refine ⟨c', hEnd, ?_⟩
    rw [if_pos ((isOutput_descriptorOf ds).mpr hOutput), hOk, descriptorOf_of_output hOutput]
    rfl
  · intro hOther
    exact ⟨_, if_neg (mt (isOutput_descriptorOf ds).mp hOther), rfl⟩

theorem acceptedIff_input {target : List Char} {t : Target} (hTarget : s.TakesTarget target t []) :
    AcceptedIff (Nat.ofDigitChars 10 ds 0 = 0)
      (Script.parse s (text ++ String.ofList (blank :: (ds ++ '<' :: target))))
      ((d.addRedirections [⟨0, t, false⟩]).alone s) := by
  refine acceptedIff_of_part hOpens hBlank (starts_number hne hDigits _) ?_
  intro c hText
  obtain ⟨c₁, hRest, hPart⟩ := commandPart_number hne hDigits true d (.inr rfl) hText
  have hZero : descriptorOf ds = 0 ↔ Nat.ofDigitChars 10 ds 0 = 0 := descriptorOf_eq_iff (by omega)
  rw [hPart, takeWord_input hne hDigits true d c (by simp [at?, hRest])]
  constructor
  · intro hInput
    obtain ⟨c', hEnd, hOk⟩ := redirectInput_target hTarget (c := c₁) (by rw [hRest, List.append_nil])
    refine ⟨c', hEnd, ?_⟩
    rw [if_pos (by simpa using hZero.mpr hInput), hOk]
    rfl
  · intro hOther
    exact ⟨_, if_neg (by simpa using mt hZero.mp hOther), rfl⟩

theorem acceptedIff_duplicate {number : List Char} {fd : Nat}
    (hNumber : number = [] ∧ fd = 1 ∨ number = ['1'] ∧ fd = 1 ∨ number = ['2'] ∧ fd = 2) :
    AcceptedIff (Nat.ofDigitChars 10 ds 0 = 1 ∨ Nat.ofDigitChars 10 ds 0 = 2)
      (Script.parse s (text ++ String.ofList (blank :: (number ++ '>' :: '&' :: ds))))
      ((d.addRedirections [⟨fd, .fd (Nat.ofDigitChars 10 ds 0), false⟩]).alone s) := by
  have hItem : Starts (number ++ '>' :: '&' :: ds) := by
    rcases hNumber with ⟨rfl, -⟩ | ⟨rfl, -⟩ | ⟨rfl, -⟩
    all_goals exact .of_ne rfl (by decide) (by decide) (by decide) (by decide)
  refine acceptedIff_of_part hOpens hBlank hItem ?_
  intro c hText
  -- With or without a number in front, the same redirection is read next.
  obtain ⟨c₁, hRest, hPart⟩ : ∃ c₁, c₁.rest = '>' :: '&' :: (ds ++ []) ∧ s.commandPart true d c =
      (s.redirectOutput fd false c₁).map fun found => (d.addRedirections found.1, found.2) := by
    rw [List.append_nil]
    rcases hNumber with ⟨rfl, rfl⟩ | hNumber
    · refine ⟨c, hText, ?_⟩
      rw [commandPart_eq, hItem.atComment_eq hText]
      simp [at?, hText]
    · obtain ⟨k, rfl, hk⟩ : ∃ k, number = [k] ∧ OutputDigit fd k := by
        rcases hNumber with ⟨rfl, rfl⟩ | ⟨rfl, rfl⟩
        · exact ⟨'1', rfl, .output⟩
        · exact ⟨'2', rfl, .errors⟩
      obtain ⟨c₁, hRest, hPart⟩ := commandPart_number (List.cons_ne_nil k []) hk.isDigit true d (.inl rfl) hText
      refine ⟨c₁, hRest, ?_⟩
      rw [hPart, takeWord_output (List.cons_ne_nil k []) hk.isDigit true d c (by simp [at?, hRest]),
        hk.descriptorOf_eq, if_pos hk.isOutput_eq]
  obtain ⟨c', hEnd, hOk⟩ := redirectOutput_number hne hDigits fd (by rintro _ ⟨⟩) hRest
  rw [hPart, hOk]
  constructor
  · intro hOutput
    refine ⟨c', hEnd, ?_⟩
    rw [if_pos ((isOutput_descriptorOf ds).mpr hOutput), descriptorOf_of_output hOutput]
    rfl
  · intro hOther
    rw [if_neg (mt (isOutput_descriptorOf ds).mp hOther)]
    exact ⟨_, rfl, rfl⟩

end Setting

end Number

/-- A number counts with its exact value, whatever its length and however many zeros it begins with. -/
theorem Script.parse_descriptor (s : Setting) {text : String} {d : Draft} (hOpens : s.Opens text d)
    {blank : Char} (hBlank : isBlank blank = true) {ds : List Char} (hne : ds ≠ [])
    (hDigits : ∀ x ∈ ds, x.isDigit = true) :
    let n := Nat.ofDigitChars 10 ds 0
    let parsed (item : List Char) := Script.parse s (text ++ String.ofList (blank :: item))
    let redirected (r : Redirection) := (d.addRedirections [r]).alone s
    (∀ target t, s.TakesTarget target t [] →
      (∀ append, AcceptedIff (n = 1 ∨ n = 2)
        (parsed (ds ++ (if append then ['>', '>'] else ['>']) ++ target))
        (redirected ⟨n, t, append && t != .null⟩)) ∧
      AcceptedIff (n = 0) (parsed (ds ++ '<' :: target)) (redirected ⟨0, t, false⟩)) ∧
    ∀ number fd, number = [] ∧ fd = 1 ∨ number = ['1'] ∧ fd = 1 ∨ number = ['2'] ∧ fd = 2 →
      AcceptedIff (n = 1 ∨ n = 2) (parsed (number ++ '>' :: '&' :: ds)) (redirected ⟨(fd : Nat), .fd n, false⟩) := by
  intro n parsed redirected
  constructor
  · intro target t hTarget
    constructor
    · intro append
      exact acceptedIff_output hne hDigits hOpens hBlank hTarget append
    · exact acceptedIff_input hne hDigits hOpens hBlank hTarget
  · intro number fd hNumber
    exact acceptedIff_duplicate hne hDigits hOpens hBlank hNumber

/-- One more than 64 bits can count wraps to 1, and is no descriptor all the same. -/
theorem Script.parse_descriptor_wrapping :
    let s : Setting := ⟨[], "", 0⟩
    let script (r : Redirection) : Script := ⟨[⟨⟨[⟨["x"], [], [r]⟩], false, "", 1⟩, []⟩]⟩
    (∃ m, Script.parse s "x\t18446744073709551617>f" = .error m ∧ m.kind = .unsupportedDescriptor) ∧
      (∃ m, Script.parse s "x\t18446744073709551616<f" = .error m ∧ m.kind = .unsupportedDescriptor) ∧
      (∃ m, Script.parse s "x\t2>&18446744073709551617" = .error m ∧ m.kind = .unsupportedDescriptor) ∧
      Script.parse s "x\t00000000000000000000002>>f" = .ok (script ⟨2, .file "f", true⟩) := by
  intro s script
  have hOpens : s.Opens "x" (Draft.empty.addArg "x") :=
    opens_word (by decide) (by decide) (.inr ⟨by decide, fun _ _ _ => by decide⟩)
  have hPath : IsPath (.file "f") := by
    constructor
    · simp
    · simp [nullDevice]
  have hPlain : ∀ path, Target.file "f" = .file path → IsPlainText path := by
    rintro _ ⟨⟩
    decide
  have hTarget : s.TakesTarget "f".toList (.file "f") [] :=
    (readsTarget_shown hPath hPlain).takes (by rintro _ ⟨⟩)
  have hTab : isBlank '\t' = true := by decide
  have hDigits : ∀ ds : List Char, ds.all Char.isDigit = true → ∀ x ∈ ds, x.isDigit = true :=
    fun ds hAll => List.all_eq_true.mp hAll
  refine ⟨?_, ?_, ?_, ?_⟩
  · have hOne := Script.parse_descriptor s hOpens hTab (by decide) (hDigits "18446744073709551617".toList (by decide))
    obtain ⟨m, hError, hKind⟩ := ((hOne.1 _ _ hTarget).1 false).2 (by decide +kernel)
    exact ⟨m, (congrArg (Script.parse s) (by decide +kernel)).symm.trans hError, hKind⟩
  · have hZero := Script.parse_descriptor s hOpens hTab (by decide) (hDigits "18446744073709551616".toList (by decide))
    obtain ⟨m, hError, hKind⟩ := (hZero.1 _ _ hTarget).2.2 (by decide +kernel)
    exact ⟨m, (congrArg (Script.parse s) (by decide +kernel)).symm.trans hError, hKind⟩
  · have hCopy := Script.parse_descriptor s hOpens hTab (by decide) (hDigits "18446744073709551617".toList (by decide))
    obtain ⟨m, hError, hKind⟩ := (hCopy.2 _ _ (.inr (.inr ⟨rfl, rfl⟩))).2 (by decide +kernel)
    exact ⟨m, (congrArg (Script.parse s) (by decide +kernel)).symm.trans hError, hKind⟩
  · have hZeros :=
      Script.parse_descriptor s hOpens hTab (by decide) (hDigits "00000000000000000000002".toList (by decide))
    have hOk := ((hZeros.1 _ _ hTarget).1 true).1 (by decide +kernel)
    exact (congrArg (Script.parse s) (by decide +kernel)).symm.trans hOk

end Pipework
