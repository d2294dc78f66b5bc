import Pipework.Proofs.Script.Printed.Basic

/-!
# Printed commands

Each printed item of a command adds to the draft what it was printed from, whatever the draft holds;
only the assignments must come before the words. From one item to the next there is a space, at which
every item ends.
-/

namespace Pipework

open Cursor Setting

/-- The text begins no comment, and with a character that ends no command. -/
def Starts (text : List Char) : Prop :=
  ∃ x more, text = x :: more ∧ isBlank x = false ∧ (x = '/' → more.head? ≠ some '/') ∧ x ≠ '|' ∧ x ≠ ';'

theorem Starts.of_ne {text more : List Char} {x : Char} (hText : text = x :: more) (hBlank : isBlank x = false)
    (hSlash : x ≠ '/') (hBar : x ≠ '|') (hSemicolon : x ≠ ';') : Starts text :=
  ⟨x, more, hText, hBlank, fun hx => absurd hx hSlash, hBar, hSemicolon⟩

namespace Starts

variable {text rest : List Char} {c : Cursor} (hStarts : Starts text)

include hStarts

theorem ne_nil : text ≠ [] := by
  obtain ⟨x, more, rfl, -⟩ := hStarts
  exact List.cons_ne_nil x more

theorem append (hRest : rest.head? ≠ some '/') : Starts (text ++ rest) := by
  obtain ⟨x, more, rfl, hBlank, hSlash, hx⟩ := hStarts
  refine ⟨x, more ++ rest, rfl, hBlank, ?_, hx⟩
  intro hx
  cases more with
  | nil => exact hRest
  | cons y more => exact hSlash hx

theorem before (hSpaced : Spaced rest) : Starts (text ++ rest) :=
  hStarts.append (hSpaced.head_ne (by decide) (by decide))

theorem skipBlanks_eq (h : c.rest = text) : c.skipBlanks = c := by
  obtain ⟨x, more, rfl, hBlank, -⟩ := hStarts
  exact skipWhile_of_neg h hBlank

theorem skipBlanks_blank {x : Char} (hx : isBlank x = true) (h : c.rest = x :: text) :
    c.skipBlanks.rest = text := by
  have hNext : c.advance.rest = text := by rw [rest_advance, h]; rfl
  rw [skipBlanks, skipWhile_of_pos h hx]
  exact (congrArg rest (hStarts.skipBlanks_eq hNext)).trans hNext

theorem skipBlanks_space (h : c.rest = ' ' :: text) : c.skipBlanks.rest = text :=
  hStarts.skipBlanks_blank (by decide) h

theorem atComment_eq (h : c.rest = text) : c.atComment = false := by
  obtain ⟨x, more, rfl, -, hSlash, -⟩ := hStarts
  by_cases hx : x = '/'
  · cases more with
    | nil => simp [atComment, h]
    | cons y more =>
      have hy : y ≠ '/' := by simpa using hSlash hx
      simp [atComment, h, hy]
  · simp [atComment, h, hx]

theorem endsCommand_eq (h : c.rest = text) : endsCommand c = false := by
  obtain ⟨x, more, rfl, -, -, hBar, hSemicolon⟩ := hStarts
  simp [endsCommand, at?, h, hBar, hSemicolon]

end Starts

namespace Setting

variable (s : Setting)

/-- The printed `item` takes the draft `d` to `d'`. -/
structure Reads (first : Bool) (d : Draft) (item : String) (d' : Draft) : Prop where
  starts : Starts item.toList
  reads : ∀ c rest, Spaced rest → c.skipBlanks.rest = item.toList ++ rest →
    ∃ c', c'.rest = rest ∧ s.commandFrom first d c = s.commandFrom first d' c'

variable {s}

theorem Reads.of_part {first : Bool} {d d' : Draft} {item : String} (hStarts : Starts item.toList)
    (hPart : ∀ c rest, Spaced rest → c.rest = item.toList ++ rest →
      ∃ c', c'.rest = rest ∧ s.commandPart first d c = .ok (d', c')) : s.Reads first d item d' := by
  refine ⟨hStarts, ?_⟩
  intro c rest hSpaced h
  obtain ⟨c', hRest, hOk⟩ := hPart c.skipBlanks rest hSpaced h
  refine ⟨c', hRest, ?_⟩
  rw [commandFrom_eq, (hStarts.before hSpaced).endsCommand_eq h, hOk]
  rfl

theorem commandPart_word (first : Bool) (d : Draft) {text rest : List Char} (hStarts : Starts (text ++ rest))
    (hOther : ∀ x ∈ text.head?, isOperator x = false) (hne : text ≠ []) {c c' : Cursor} {w : Word}
    (h : c.rest = text ++ rest) (hWord : s.word c = .ok (w, c')) (hIn : c'.at? '<' = false)
    (hOut : c'.at? '>' = false) : s.commandPart first d c = .ok (d.addWord first w, c') := by
  obtain ⟨x, more, rfl⟩ := List.exists_cons_of_ne_nil hne
  have hx : isOperator x = false := hOther x rfl
  simp only [isOperator, Bool.or_eq_false_iff, beq_eq_false_iff_ne] at hx
  have hNotIn : c.at? '<' = false := by simp [at?, h, hx]
  have hNotOut : c.at? '>' = false := by simp [at?, h, hx]
  rw [commandPart_eq, hStarts.atComment_eq h, hNotIn, hNotOut, hWord]
  simp [Except.bind, takeWord, hIn, hOut]

theorem Reads.of_word {first : Bool} {d d' : Draft} {item : String} (hStarts : Starts item.toList)
    (hOther : ∀ x ∈ item.toList.head?, isOperator x = false)
    (hWord : ∀ c rest, Spaced rest → c.rest = item.toList ++ rest →
      ∃ c' w, c'.rest = rest ∧ s.word c = .ok (w, c') ∧ d.addWord first w = d') :
    s.Reads first d item d' := by
  refine .of_part hStarts ?_
  intro c rest hSpaced h
  obtain ⟨c', w, hRest, hOk, hAdd⟩ := hWord c rest hSpaced h
  refine ⟨c', hRest, ?_⟩
  rw [commandPart_word first d (hStarts.before hSpaced) hOther hStarts.ne_nil h hOk
    (hSpaced.at_eq_false hRest (by decide) (by decide)) (hSpaced.at_eq_false hRest (by decide) (by decide)), hAdd]

theorem addWord_of_literal (first : Bool) (d : Draft) (text : String) :
    d.addWord first ⟨text.toList, some 0⟩ = d.addArg text := by
  have hNone : (⟨text.toList, some 0⟩ : Word).assignment? = none := by
    rw [← List.nil_append text.toList]
    exact Word.assignment?_append [] text.toList
  simp [Draft.addWord, Word.spells, Word.isBare, hNone]

theorem eq_of_assignment? {w : Word} {key value : String} (h : w.assignment? = some (key, value)) :
    String.ofList w.text = key ++ "=" ++ value := by
  have hParts := List.takeWhile_append_dropWhile (p := (· ≠ '=')) (l := w.text)
  have hStop := List.head?_dropWhile_not (fun x : Char => decide (x ≠ '=')) w.text
  rw [Word.assignment?, List.span_eq_takeWhile_dropWhile] at h
  split at h
  · next first name eq rest hSpan =>
    obtain ⟨hName, hRest⟩ := Prod.mk.inj hSpan
    rw [hName, hRest] at hParts
    rw [hRest] at hStop
    obtain rfl : eq = '=' := by simpa using hStop
    obtain ⟨-, hFound⟩ := Option.ite_none_right_eq_some.mp h
    cases hFound
    rw [← hParts]
    simp [String.append_assoc]
  · cases h

/-- A word that sets a variable holds an `=`, and so is not taken for another word in front of a command. -/
theorem addWord_of_assignment (first : Bool) {d : Draft} (hArgs : d.command.args = []) {w : Word}
    {entry : String × String} (h : w.assignment? = some entry) :
    d.addWord first w = d.addAssignment entry.1 entry.2 := by
  have hMem : '=' ∈ w.text := by
    have hText := congrArg String.toList (eq_of_assignment? h)
    rw [String.toList_ofList] at hText
    rw [hText]
    simp
  have hOther : ∀ text : String, '=' ∉ text.toList → w.spells text = false := by
    intro text hText
    cases hSpelled : w.spells text with
    | false => rfl
    | true =>
      simp only [Word.spells, Bool.and_eq_true, beq_iff_eq] at hSpelled
      exact (hText (hSpelled.2 ▸ hMem)).elim
  simp [Draft.addWord, hOther "" (by decide), hOther "ignore" (by decide), hArgs, h]

theorem starts_literal (f : Spelling) (text : String) : Starts (f.literal text).toList := by
  have hText : (f.literal text).toList = 'r' :: (f.hashes text ++ "\"" ++ text ++ "\"" ++ f.hashes text).toList := by
    simp [Spelling.literal]
  exact .of_ne hText (by decide) (by decide) (by decide) (by decide)

theorem reads_literal (f : Spelling) (first : Bool) (d : Draft) (text : String) :
    s.Reads first d (f.literal text) (d.addArg text) := by
  have hHead : ∀ x ∈ (f.literal text).toList.head?, isOperator x = false := by
    intro x hx
    obtain rfl : 'r' = x := by simpa [Spelling.literal] using hx
    rfl
  refine .of_word (starts_literal f text) hHead ?_
  intro c rest hSpaced h
  obtain ⟨c', hRest, hWord⟩ := s.wordFrom_literal f text hSpaced.endsWord h
  exact ⟨c', _, hRest, hWord, addWord_of_literal first d text⟩

theorem reads_assignment (f : Spelling) (first : Bool) {d : Draft} (hArgs : d.command.args = [])
    {entry : String × String} (hName : IsName entry.1) :
    s.Reads first d (f.assignment entry) (d.addAssignment entry.1 entry.2) := by
  have hText : ∃ x more, (f.assignment entry).toList = x :: more ∧ isNameChar x = true := by
    obtain ⟨x, more, hFirst, hStart, -⟩ := hName
    refine ⟨x, more ++ '=' :: '"' :: '"' :: (f.literal entry.2).toList, ?_, by simp [isNameChar, hStart]⟩
    simp [Spelling.assignment, hFirst]
  obtain ⟨x, more, hText, hx⟩ := hText
  have hPlain := isPlain_of_nameChar hx
  simp only [isPlain, Bool.not_eq_true', Bool.or_eq_false_iff] at hPlain
  refine .of_word (.of_ne hText hPlain.1.1.1.1 (nameChar_ne hx rfl) (nameChar_ne hx rfl) (nameChar_ne hx rfl)) ?_ ?_
  · rw [hText]
    rintro _ ⟨⟩
    exact hPlain.1.1.1.2
  · intro c rest hSpaced h
    obtain ⟨c', w, hRest, hWord, hEntry⟩ := s.word_assignment f hName hSpaced.endsWord h
    exact ⟨c', w, hRest, hWord, addWord_of_assignment first hArgs hEntry⟩

theorem reads_ignore : s.Reads true .empty "ignore" ⟨⟨[], [], []⟩, true⟩ := by
  have hStarts : Starts "ignore".toList :=
    .of_ne (rfl : _ = 'i' :: "gnore".toList) (by decide) (by decide) (by decide) (by decide)
  refine .of_word hStarts (by rintro _ ⟨⟩; rfl) ?_
  intro c rest hSpaced h
  have hText : c.rest = 'i' :: "gnore".toList ++ rest := h
  obtain ⟨c', hRest, hWord⟩ := s.word_spelled (by decide) (rawFence?_none hText (by decide) (by decide))
    hSpaced.endsWord hText
  exact ⟨c', _, hRest, hWord, rfl⟩

/-- What a redirection to a file or to the null device needs of its target. -/
structure IsPath (t : Target) : Prop where
  not_fd : ∀ n, t ≠ .fd n
  file : ∀ path, t = .file path → path ≠ "" ∧ path ≠ nullDevice

theorem toList_nullDevice : nullDevice.toList = '/' :: "dev/null".toList := by decide

variable (s)

/-- The text is a word for the file or the null device `t`. -/
structure ReadsTarget (text : String) (t : Target) : Prop where
  head : ∃ x more, text.toList = x :: more ∧ isBlank x = false ∧ isOperator x = false ∧ x ≠ '&'
  word : ∀ c rest, EndsWord rest → c.rest = text.toList ++ rest →
    ∃ c' w, c'.rest = rest ∧ s.word c = .ok (w, c') ∧ w.text ≠ [] ∧ Target.ofPath (String.ofList w.text) = t

variable {s}

theorem readsTarget_nullDevice : s.ReadsTarget nullDevice .null := by
  refine ⟨⟨'/', "dev/null".toList, toList_nullDevice, by decide, by decide, by decide⟩, ?_⟩
  intro c rest hEnd h
  have hText : c.rest = '/' :: "dev/null".toList ++ rest := toList_nullDevice ▸ h
  obtain ⟨c', hRest, hWord⟩ := s.word_spelled (by decide) (rawFence?_none hText (by decide) (by decide))
    hEnd hText
  exact ⟨c', _, hRest, hWord, by decide, by decide⟩

theorem readsTarget_printed (f : Spelling) {t : Target} (ht : IsPath t) : s.ReadsTarget (f.target t) t := by
  cases t with
  | file path =>
    obtain ⟨hEmpty, hNull⟩ := ht.file path rfl
    refine ⟨⟨'r', (f.hashes path ++ "\"" ++ path ++ "\"" ++ f.hashes path).toList,
      by simp [Spelling.target, Spelling.literal], by decide, by decide, by decide⟩, ?_⟩
    intro c rest hEnd h
    obtain ⟨c', hRest, hWord⟩ := s.wordFrom_literal f path hEnd h
    refine ⟨c', _, hRest, hWord, by simpa using hEmpty, ?_⟩
    rw [String.ofList_toList, Target.ofPath, if_neg hNull]
  | fd n => exact absurd rfl (ht.not_fd n)
  | null => exact readsTarget_nullDevice

variable (s)

/-- In front of `rest` the text is read as the target `t` of any redirection. -/
def TakesTarget (text : List Char) (t : Target) (rest : List Char) : Prop :=
  ∀ op c, c.rest = text ++ rest → ∃ c', c'.rest = rest ∧ s.target op c = .ok (t, c')

variable {s}

theorem ReadsTarget.takes {text : String} {t : Target} (ht : s.ReadsTarget text t) {rest : List Char}
    (hEnd : EndsWord rest) : s.TakesTarget text.toList t rest := by
  intro op c h
  obtain ⟨c', w, hRest, hWord, hText, hPath⟩ := ht.word c rest hEnd h
  obtain ⟨x, more, hHead, hBlank, hOperator, hAmpersand⟩ := ht.head
  have hStart : c.rest = x :: (more ++ rest) := by rw [h, hHead, List.cons_append]
  have hSame : c.skipBlanks = c := skipWhile_of_neg hStart hBlank
  refine ⟨c', hRest, ?_⟩
  rw [target_cons (hSame.symm ▸ hStart), hSame, if_neg (by simpa using hAmpersand),
    if_neg (by simp [hOperator]), hWord]
  simp [Except.bind, hText, hPath]

section Target

variable {text rest : List Char} {t : Target} (ht : s.TakesTarget text t rest) {c : Cursor}

include ht

theorem TakesTarget.at_eq_false {x : Char} (hBlank : isBlank x = false) (hx : x = '&' ∨ isOperator x = true)
    (h : c.rest = text ++ rest) : c.at? x = false := by
  refine Bool.eq_false_iff.mpr fun hAt => ?_
  obtain ⟨more, hMore⟩ := exists_cons_of_at hAt
  obtain ⟨c', -, hTarget⟩ := ht c c h
  have hSame : c.skipBlanks = c := skipWhile_of_neg hMore hBlank
  rw [target_cons (hSame.symm ▸ hMore)] at hTarget
  split at hTarget
  · cases hTarget
  · next hAmpersand =>
    rw [if_pos (hx.resolve_left (by simpa using hAmpersand))] at hTarget
    cases hTarget

theorem redirectInput_target (h : c.rest = '<' :: (text ++ rest)) :
    ∃ c', c'.rest = rest ∧ s.redirectInput c = .ok ([⟨0, t, false⟩], c') := by
  have hNext : c.advance.rest = text ++ rest := by rw [rest_advance, h]; rfl
  obtain ⟨c', hRest, hTarget⟩ := ht c c.advance hNext
  refine ⟨c', hRest, ?_⟩
  rw [redirectInput_eq, ht.at_eq_false (by decide) (.inr rfl) hNext, ht.at_eq_false (by decide) (.inl rfl) hNext,
    hTarget]
  rfl

theorem redirectOutput_target (fd : Nat) (append : Bool)
    (h : c.rest = (if append then ['>', '>'] else ['>']) ++ (text ++ rest)) :
    ∃ c', c'.rest = rest ∧ s.redirectOutput fd false c = .ok ([⟨fd, t, append && t != .null⟩], c') := by
  have hAppend : c.advance.at? '>' = append := by
    cases append with
    | false => exact ht.at_eq_false (by decide) (.inr rfl) (by rw [rest_advance, h]; rfl)
    | true => simp [at?, rest_advance, h]
  have hNext : (afterOutput c).rest = text ++ rest := by
    rw [afterOutput, hAppend]
    cases append <;> simp [rest_advance, h]
  obtain ⟨c', hRest, hTarget⟩ := ht c (afterOutput c) hNext
  refine ⟨c', hRest, ?_⟩
  rw [redirectOutput_eq, ht.at_eq_false (by decide) (.inl rfl) hNext, hTarget, hAppend]
  rfl

end Target

/-- Stopping at the largest number of 64 bits makes no smaller number of a larger one. -/
theorem descriptorOf_eq_iff {ds : List Char} {n : Nat} (hn : n < 0x7FFFFFFFFFFFFFFF) :
    descriptorOf ds = n ↔ digitsValue ds = n := by
  unfold descriptorOf
  omega

section Number

variable {ds rest : List Char} (hne : ds ≠ []) (hDigits : ∀ x ∈ ds, x.isDigit = true) {c : Cursor}

include hne hDigits

/-- Digits right in front of the operator of a redirection are a word of their own, for that operator. -/
theorem commandPart_number (first : Bool) (d : Draft) {op : Char} (hOp : op = '>' ∨ op = '<')
    (h : c.rest = ds ++ op :: rest) :
    ∃ c', c'.rest = op :: rest ∧ s.commandPart first d c = s.takeWord first d c ⟨ds, none⟩ c' := by
  obtain ⟨x, ds, rfl⟩ := List.exists_cons_of_ne_nil hne
  have hName : ∀ y ∈ x :: ds, isNameChar y = true := by
    intro y hy
    rw [isNameChar, hDigits y hy, Bool.or_true]
  have hPlain : (x :: ds).all isPlain = true :=
    List.all_eq_true.mpr fun y hy => isPlain_of_nameChar (hName y hy)
  have hx := hName x List.mem_cons_self
  have hFence : c.rawFence? = none := by
    have hr : x ≠ 'r' := by
      rintro rfl
      cases hDigits 'r' List.mem_cons_self
    have hb : x ≠ 'b' := by
      rintro rfl
      cases hDigits 'b' List.mem_cons_self
    simp [rawFence?, h, hr, hb]
  have hEnd : EndsWord (op :: rest) := by
    rintro _ ⟨⟩
    rcases hOp with rfl | rfl <;> rfl
  obtain ⟨c', hRest, hWord⟩ := s.word_spelled hPlain hFence hEnd h
  have hComment : c.atComment = false := by simp [atComment, h, nameChar_ne hx (y := '/') rfl]
  have hIn : c.at? '<' = false := by simp [at?, h, nameChar_ne hx (y := '<') rfl]
  have hOut : c.at? '>' = false := by simp [at?, h, nameChar_ne hx (y := '>') rfl]
  refine ⟨c', hRest, ?_⟩
  rw [commandPart_eq, hComment, hIn, hOut, hWord]
  rfl

theorem takeWord_output (first : Bool) (d : Draft) (start : Cursor) (h : c.at? '>' = true) :
    s.takeWord first d start ⟨ds, none⟩ c =
      if isOutput (descriptorOf ds) then
        (s.redirectOutput (descriptorOf ds) false c).map fun (rs, c') => (d.addRedirections rs, c')
      else .error (s.mistake .unsupportedDescriptor start (c.pos.offset + 1) []) := by
  have hOther : ds ≠ ['&'] := by
    rintro rfl
    cases hDigits '&' List.mem_cons_self
  have hNumber : Word.isNumber ⟨ds, none⟩ = true := by simpa [Word.isNumber, Word.isBare, hne] using hDigits
  simp [takeWord, h, Word.spells, hOther, hNumber]

theorem takeWord_input (first : Bool) (d : Draft) (start : Cursor) (h : c.at? '<' = true) :
    s.takeWord first d start ⟨ds, none⟩ c =
      if descriptorOf ds == 0 then (s.redirectInput c).map fun (rs, c') => (d.addRedirections rs, c')
      else .error (s.mistake .unsupportedDescriptor start (c.pos.offset + 1) []) := by
  have hOut : c.at? '>' = false := by
    obtain ⟨rest, hRest⟩ := exists_cons_of_at h
    simp [at?, hRest]
  have hNumber : Word.isNumber ⟨ds, none⟩ = true := by simpa [Word.isNumber, Word.isBare, hne] using hDigits
  simp [takeWord, h, hOut, hNumber]

theorem redirectOutput_number (fd : Nat) (hStop : ∀ x ∈ rest.head?, x.isDigit = false)
    (h : c.rest = '>' :: '&' :: (ds ++ rest)) :
    ∃ c', c'.rest = rest ∧ s.redirectOutput fd false c =
      if isOutput (descriptorOf ds) then .ok ([⟨fd, .fd (descriptorOf ds), false⟩], c')
      else .error (s.mistake .unsupportedDescriptor c c'.pos.offset []) := by
  have hSingle : c.advance.at? '>' = false := by simp [at?, rest_advance, h]
  have hAfter : afterOutput c = c.advance := by rw [afterOutput, hSingle]; rfl
  have hMore : c.advance.advance.rest = ds ++ rest := by simp [rest_advance, h]
  obtain ⟨hTake, hDrop⟩ := takeWhile_append_stop (p := Char.isDigit) (l := []) (.inr hStop)
  have hTaken : (c.advance.advance.span Char.isDigit).1 = ds := by
    rw [span, hMore, List.takeWhile_append_of_pos hDigits, ← List.nil_append rest, hTake]
    exact List.append_nil ds
  have hRest : (c.advance.advance.span Char.isDigit).2.rest = rest := by
    rw [span, hMore, List.dropWhile_append_of_pos hDigits]
    exact hDrop
  refine ⟨_, hRest, ?_⟩
  rw [redirectOutput_eq, hAfter, if_pos (by simp [at?, rest_advance, h])]
  simp [hTaken, hne, hSingle]

end Number

/-- The descriptors of output, with the digit that they are printed as. -/
inductive OutputDigit : Nat → Char → Prop
  | output : OutputDigit 1 '1'
  | errors : OutputDigit 2 '2'

namespace OutputDigit

variable {n : Nat} {k : Char} (h : OutputDigit n k)

include h

theorem isDigit : ∀ x ∈ [k], x.isDigit = true := by
  rw [List.forall_mem_singleton]
  cases h <;> rfl

theorem descriptorOf_eq : descriptorOf [k] = n := by
  cases h <;> exact (descriptorOf_eq_iff (by omega)).mpr rfl

theorem isOutput_eq : isOutput n = true := by
  cases h <;> rfl

end OutputDigit

theorem Reads.of_output (first : Bool) (d : Draft) {n : Nat} {k : Char} (hk : OutputDigit n k)
    {item : String} (more : List Char) (hItem : item.toList = k :: '>' :: more) {r : Redirection}
    (hOutput : ∀ c rest, Spaced rest → c.rest = '>' :: (more ++ rest) →
      ∃ c', c'.rest = rest ∧ s.redirectOutput n false c = .ok ([r], c')) :
    s.Reads first d item (d.addRedirections [r]) := by
  have hStarts : Starts item.toList := by
    rw [hItem]
    cases hk <;> exact .of_ne rfl (by decide) (by decide) (by decide) (by decide)
  refine .of_part hStarts ?_
  intro c rest hSpaced h
  have hText : c.rest = [k] ++ '>' :: (more ++ rest) := by rw [h, hItem]; rfl
  obtain ⟨c₁, hRest₁, hPart⟩ := s.commandPart_number (List.cons_ne_nil k []) hk.isDigit first d (.inl rfl) hText
  obtain ⟨c', hRest, hOk⟩ := hOutput c₁ rest hSpaced hRest₁
  refine ⟨c', hRest, ?_⟩
  rw [hPart, takeWord_output (List.cons_ne_nil k []) hk.isDigit first d c (by simp [at?, hRest₁]),
    hk.descriptorOf_eq, if_pos hk.isOutput_eq, hOk]
  rfl

theorem reads_input (first : Bool) (d : Draft) {text : String} {t : Target} (ht : s.ReadsTarget text t) :
    s.Reads first d ("<" ++ text) (d.addRedirections [⟨0, t, false⟩]) := by
  have hItem : ("<" ++ text).toList = '<' :: text.toList := by simp
  have hStarts : Starts ("<" ++ text).toList := .of_ne hItem (by decide) (by decide) (by decide) (by decide)
  refine .of_part hStarts ?_
  intro c rest hSpaced h
  have hText : c.rest = '<' :: (text.toList ++ rest) := by rw [h, hItem]; rfl
  obtain ⟨c', hRest, hOk⟩ := redirectInput_target (ht.takes hSpaced.endsWord) hText
  refine ⟨c', hRest, ?_⟩
  rw [commandPart_eq, (hStarts.before hSpaced).atComment_eq h,
    if_pos (by simp [at?, hText] : c.at? '<' = true), hOk]
  rfl

section Redirection

variable (first : Bool) (d : Draft) {text : String} {r : Redirection} (h : r.WellFormed)
  (hFd : ∀ n, r.target = .fd n → text = "&" ++ toString n)
  (hPath : IsPath r.target → s.ReadsTarget text r.target)

include h hFd hPath

theorem reads_output {n : Nat} {k : Char} (hk : OutputDigit n k) (hn : r.fd = n) :
    s.Reads first d (r.operator ++ text) (d.addRedirections [r]) := by
  obtain ⟨fd, t, append⟩ := r
  obtain rfl : fd = n := hn
  have hOperator : Redirection.operator ⟨n, t, append⟩ =
      String.ofList [k] ++ if append then ">>" else ">" := by
    cases hk <;> rfl
  by_cases hDuplicate : ∃ m, t = .fd m
  · obtain ⟨m, rfl⟩ := hDuplicate
    obtain ⟨hm, rfl⟩ : (m = 1 ∨ m = 2) ∧ append = false := h.duplicate m rfl
    obtain ⟨j, x, rfl, hx, hDigits⟩ : ∃ (j : Nat) (x : Char), m = j ∧ OutputDigit j x ∧
        (toString m).toList = [x] := by
      rcases hm with rfl | rfl
      · exact ⟨1, '1', rfl, .output, rfl⟩
      · exact ⟨2, '2', rfl, .errors, rfl⟩
    refine .of_output first d hk ['&', x] ?_ ?_
    · rw [hOperator, hFd _ rfl]
      simp only [String.toList_append, hDigits]
      simp
    · intro c rest hSpaced hText
      have hStop : ∀ y ∈ rest.head?, y.isDigit = false := by
        intro y hy
        rcases hSpaced y hy with rfl | rfl <;> rfl
      obtain ⟨c', hRest, hOk⟩ :=
        redirectOutput_number (List.cons_ne_nil x []) hx.isDigit n hStop (hText : c.rest = '>' :: '&' :: ([x] ++ rest))
      refine ⟨c', hRest, ?_⟩
      rw [hOk, hx.descriptorOf_eq, if_pos hx.isOutput_eq]
  · have ht : s.ReadsTarget text t := hPath ⟨fun m hm => hDuplicate ⟨m, hm⟩, h.file⟩
    refine .of_output first d hk ((if append then ['>'] else []) ++ text.toList) ?_ ?_
    · rw [hOperator]
      cases append <;> simp
    · intro c rest hSpaced hText
      have hNull : (append && t != .null) = append := by
        by_cases hEq : t = .null
        · obtain rfl : append = false := h.null hEq
          rfl
        · simp [hEq]
      rw [← hNull]
      refine redirectOutput_target (ht.takes hSpaced.endsWord) n append ?_
      rw [hText]
      cases append <;> simp

/-- A redirection is read back from its operator and whatever is read as its target. -/
theorem reads_redirection : s.Reads first d (r.operator ++ text) (d.addRedirections [r]) := by
  rcases h.standard with hZero | hOne | hTwo
  · obtain ⟨hAppend, hNotFd⟩ := h.input hZero
    obtain ⟨fd, t, append⟩ := r
    obtain rfl : fd = 0 := hZero
    obtain rfl : append = false := hAppend
    exact reads_input first d (hPath ⟨hNotFd, h.file⟩)
  · exact reads_output first d h hFd hPath .output hOne
  · exact reads_output first d h hFd hPath .errors hTwo

end Redirection

variable (s)

/-- The printed items take the draft from one to the next. -/
inductive ReadsAll (first : Bool) : Draft → List String → Draft → Prop
  | nil (d : Draft) : ReadsAll first d [] d
  | cons {d d₁ d₂ : Draft} {item : String} {items : List String} (h : s.Reads first d item d₁)
    (hItems : ReadsAll first d₁ items d₂) : ReadsAll first d (item :: items) d₂

variable {s}

theorem ReadsAll.append {first : Bool} {d d₁ d₂ : Draft} {items more : List String}
    (h : s.ReadsAll first d items d₁) (hMore : s.ReadsAll first d₁ more d₂) :
    s.ReadsAll first d (items ++ more) d₂ := by
  induction h with
  | nil d => exact hMore
  | cons hItem _ ih => exact .cons hItem (ih hMore)

theorem Reads.join {first : Bool} {d d₁ d₂ : Draft} {a b : String} (ha : s.Reads first d a d₁)
    (hb : s.Reads first d₁ b d₂) : s.Reads first d (a ++ " " ++ b) d₂ := by
  have hText : (a ++ " " ++ b).toList = a.toList ++ ' ' :: b.toList := by simp
  refine ⟨hText ▸ ha.starts.append (by simp), ?_⟩
  intro c rest hSpaced h
  rw [hText, List.append_assoc] at h
  obtain ⟨c₁, hRest₁, hFirst⟩ := ha.reads c (' ' :: (b.toList ++ rest)) (by rintro _ ⟨⟩; exact .inl rfl) h
  obtain ⟨c₂, hRest₂, hSecond⟩ := hb.reads c₁ rest hSpaced ((hb.starts.before hSpaced).skipBlanks_space hRest₁)
  exact ⟨c₂, hRest₂, hFirst.trans hSecond⟩

theorem ReadsAll.join {first : Bool} {d d' : Draft} {item : String} {items : List String}
    (h : s.ReadsAll first d (item :: items) d') : s.Reads first d (" ".intercalate (item :: items)) d' := by
  induction items generalizing item d with
  | nil =>
    cases h with
    | cons hItem hNil =>
      cases hNil
      rwa [String.intercalate_singleton]
  | cons next items ih =>
    cases h with
    | cons hItem hItems =>
      rw [String.intercalate_cons_cons]
      exact hItem.join (ih hItems)

/-- Items of one kind are read one by one as long as the drafts keep what the kind needs. -/
theorem readsAll_map {α : Type} {first : Bool} (item : α → String) (add : Draft → α → Draft)
    (Ready : Draft → Prop) {l : List α}
    (hStep : ∀ d, ∀ a ∈ l, Ready d → s.Reads first d (item a) (add d a) ∧ Ready (add d a)) {d : Draft}
    (hReady : Ready d) : s.ReadsAll first d (l.map item) (l.foldl add d) := by
  induction l generalizing d with
  | nil => exact .nil d
  | cons a l ih =>
    obtain ⟨hItem, hNext⟩ := hStep d a List.mem_cons_self hReady
    exact .cons hItem (ih (fun d b hb => hStep d b (List.mem_cons_of_mem a hb)) hNext)

end Setting

namespace Table

def insertAll (t : Table) (entries : List (String × String)) : Table :=
  entries.foldl (fun t entry => t.insert entry.1 entry.2) t

theorem insert_perm {key : String} (value : String) {t : Table} (h : ∀ entry ∈ t, entry.1 ≠ key) :
    (t.insert key value).Perm ((key, value) :: t) := by
  induction t with
  | nil => exact .refl _
  | cons entry t ih =>
    obtain ⟨k, v⟩ := entry
    obtain ⟨hne, hRest⟩ := List.forall_mem_cons.mp h
    rw [insert, if_neg hne]
    split
    · exact .refl _
    · exact ((ih hRest).cons _).trans (.swap _ _ _)

theorem insertAll_perm {t entries : Table} (h : (entries ++ t).Pairwise fun a b => a.1 ≠ b.1) :
    (t.insertAll entries).Perm (entries ++ t) := by
  induction entries generalizing t with
  | nil => exact .refl _
  | cons entry entries ih =>
    obtain ⟨hEntry, hRest⟩ := List.pairwise_cons.mp h
    have hInsert : (t.insert entry.1 entry.2).Perm (entry :: t) :=
      insert_perm entry.2 fun other hOther => (hEntry other (List.mem_append_right _ hOther)).symm
    have hMiddle : (entries ++ t.insert entry.1 entry.2).Perm (entry :: (entries ++ t)) :=
      (hInsert.append_left entries).trans List.perm_middle
    exact (ih ((hMiddle.pairwise_iff fun hNe => Ne.symm hNe).mpr h)).trans hMiddle

theorem ordered_insertAll {t : Table} (h : t.Ordered) (entries : List (String × String)) :
    (t.insertAll entries).Ordered := by
  induction entries generalizing t with
  | nil => exact h
  | cons entry entries ih => exact ih (h.insert entry.1 entry.2)

theorem insertAll_arranged {t entries : Table} (h : t.Ordered) (hPerm : entries.Perm t) :
    Table.insertAll [] entries = t := by
  have hKeys : t.Pairwise fun a b => a.1 ≠ b.1 := h.imp fun hLess => String.ne_of_lt hLess
  have hDistinct : List.Pairwise (fun a b : String × String => a.1 ≠ b.1) (entries ++ []) := by
    rw [List.append_nil]
    exact (hPerm.pairwise_iff fun hNe => Ne.symm hNe).mpr hKeys
  have hAll : (Table.insertAll [] entries).Perm t := by
    have hEntries := insertAll_perm hDistinct
    rw [List.append_nil] at hEntries
    exact hEntries.trans hPerm
  refine hAll.eq_of_pairwise ?_ (ordered_insertAll List.Pairwise.nil entries) h
  intro a b _ _ hab hba
  exact absurd hba (String.lt_asymm hab)

end Table

namespace Setting

variable {s : Setting}

theorem Draft.foldl_addAssignment (entries : List (String × String)) (d : Draft) :
    entries.foldl (fun d entry => d.addAssignment entry.1 entry.2) d =
      ⟨{ d.command with env := d.command.env.insertAll entries }, d.ignore⟩ := by
  induction entries generalizing d with
  | nil => rfl
  | cons entry entries ih =>
    rw [List.foldl_cons, ih]
    rfl

theorem Draft.foldl_addArg (args : List String) (d : Draft) :
    args.foldl Draft.addArg d = ⟨{ d.command with args := d.command.args ++ args }, d.ignore⟩ := by
  induction args generalizing d with
  | nil => rw [List.append_nil]; rfl
  | cons arg args ih =>
    rw [List.foldl_cons, ih]
    simp [Draft.addArg]

theorem Draft.foldl_addRedirections (rs : List Redirection) (d : Draft) :
    rs.foldl (fun d r => d.addRedirections [r]) d =
      ⟨{ d.command with redirections := d.command.redirections ++ rs }, d.ignore⟩ := by
  induction rs generalizing d with
  | nil => rw [List.append_nil]; rfl
  | cons r rs ih =>
    rw [List.foldl_cons, ih]
    simp [Draft.addRedirections]

theorem readsAll_env (f : Spelling) (first ignore : Bool) {c : Command} (h : c.WellFormed) :
    s.ReadsAll first ⟨⟨[], [], []⟩, ignore⟩ ((f.arrange c.env).map f.assignment)
      ⟨⟨[], c.env, []⟩, ignore⟩ := by
  have hStep : ∀ d : Draft, ∀ entry ∈ f.arrange c.env, d.command.args = [] →
      s.Reads first d (f.assignment entry) (d.addAssignment entry.1 entry.2) ∧
        (d.addAssignment entry.1 entry.2).command.args = [] := by
    intro d entry hEntry hArgs
    have hName : IsName entry.1 := h.env_names entry ((f.arrange_perm c.env).mem_iff.mp hEntry)
    exact ⟨reads_assignment f first hArgs hName, hArgs⟩
  have hAll := readsAll_map f.assignment (fun d entry => d.addAssignment entry.1 entry.2)
    (fun d => d.command.args = []) hStep (d := ⟨⟨[], [], []⟩, ignore⟩) rfl
  rwa [Draft.foldl_addAssignment, Table.insertAll_arranged h.env_ordered (f.arrange_perm c.env)] at hAll

theorem readsAll_redirections (first : Bool) (d : Draft) (text : Target → String) {rs : List Redirection}
    (h : ∀ r ∈ rs, r.WellFormed) (hFd : ∀ n, text (.fd n) = "&" ++ toString n)
    (hPath : ∀ r ∈ rs, IsPath r.target → s.ReadsTarget (text r.target) r.target) :
    s.ReadsAll first d (rs.map fun r => r.operator ++ text r.target)
      ⟨{ d.command with redirections := d.command.redirections ++ rs }, d.ignore⟩ := by
  have hStep : ∀ d : Draft, ∀ r ∈ rs, True →
      s.Reads first d (r.operator ++ text r.target) (d.addRedirections [r]) ∧ True := by
    intro d r hr _
    refine ⟨reads_redirection first d (h r hr) ?_ (hPath r hr), trivial⟩
    intro n hTarget
    rw [hTarget, hFd]
  have hAll := readsAll_map _ (fun d r => d.addRedirections [r]) (fun _ => True) hStep (d := d) trivial
  rwa [Draft.foldl_addRedirections] at hAll

theorem readsAll_items (f : Spelling) (first ignore : Bool) {c : Command} (h : c.WellFormed) :
    s.ReadsAll first ⟨⟨[], [], []⟩, ignore⟩ (f.items c) ⟨c, ignore⟩ := by
  have hArgs : s.ReadsAll first ⟨⟨[], c.env, []⟩, ignore⟩ (c.args.map f.literal)
      ⟨⟨c.args, c.env, []⟩, ignore⟩ := by
    have hAll := readsAll_map f.literal Draft.addArg (fun _ => True) (l := c.args)
      (fun d arg _ _ => ⟨reads_literal (s := s) f first d arg, trivial⟩)
      (d := ⟨⟨[], c.env, []⟩, ignore⟩) trivial
    rwa [Draft.foldl_addArg] at hAll
  have hRedirections : s.ReadsAll first ⟨⟨c.args, c.env, []⟩, ignore⟩ (c.redirections.map f.redirection)
      ⟨c, ignore⟩ :=
    readsAll_redirections first ⟨⟨c.args, c.env, []⟩, ignore⟩ f.target h.redirections (fun _ => rfl)
      fun _ _ => readsTarget_printed f
  exact ((readsAll_env f first ignore h).append hArgs).append hRedirections

/-- The items of a command are read with the word that says whether failures of its pipeline count. -/
theorem ReadsAll.command {first ignore : Bool} (hFirst : ignore = true → first = true) {items : List String}
    {c : Command} (hne : items ≠ []) (h : s.ReadsAll first ⟨⟨[], [], []⟩, ignore⟩ items ⟨c, ignore⟩) :
    s.Reads first .empty ((if ignore then "ignore " else "") ++ " ".intercalate items) ⟨c, ignore⟩ := by
  obtain ⟨item, items, rfl⟩ := List.exists_cons_of_ne_nil hne
  cases ignore with
  | false =>
    rw [if_neg Bool.false_ne_true, String.empty_append]
    exact h.join
  | true =>
    obtain rfl := hFirst rfl
    exact reads_ignore.join h.join

theorem reads_command (f : Spelling) (first ignore : Bool) (hFirst : ignore = true → first = true)
    {c : Command} (h : c.WellFormed) :
    s.Reads first .empty ((if ignore then "ignore " else "") ++ f.command c) ⟨c, ignore⟩ := by
  refine ReadsAll.command hFirst ?_ (readsAll_items f first ignore h)
  intro hNil
  simp only [Spelling.items, List.append_eq_nil_iff, List.map_eq_nil_iff] at hNil
  exact h.args_ne_nil hNil.1.2

end Setting

end Pipework
