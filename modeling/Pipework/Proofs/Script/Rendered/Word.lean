import Pipework.Proofs.Script.Rendered.Basic

/-!
# The words of a shown script

Where a shown word ends is seen from its quotes alone, whatever it holds and whatever follows it. What
it was shown from is found again: a text by taking its quotes away, the name of a variable up to the
first `=`, and a redirection as descriptor, arrow and target.
-/

namespace Pipework

/-- Where a reader of a shown word stands: outside quotes, between them, or after a backslash. -/
inductive Quoting where
  | outside
  | inside
  | escaped
deriving DecidableEq

namespace Quoting

def next : Quoting → Char → Quoting
  | outside, x => if x = '\'' then inside else if x = '\\' then escaped else outside
  | inside, x => if x = '\'' then outside else inside
  | escaped, _ => outside

/-- The character `x` belongs to the word, and is no mark around or before a part of it. -/
def shows : Quoting → Char → Bool
  | outside, x => x != '\'' && x != '\\'
  | inside, x => x != '\''
  | escaped, _ => true

def read : Quoting → List Char → List Char
  | _, [] => []
  | q, x :: text => (if q.shows x then [x] else []) ++ (q.next x).read text

/-- The text has no space and no semicolon outside quotes, and leaves no quote open. -/
def Unbroken : Quoting → List Char → Prop
  | q, [] => q = outside
  | q, x :: text => (q = outside → x ≠ ' ' ∧ x ≠ ';') ∧ (q.next x).Unbroken text

theorem Unbroken.append {q : Quoting} {text more : List Char} (h : q.Unbroken text)
    (hMore : outside.Unbroken more) : q.Unbroken (text ++ more) := by
  induction text generalizing q with
  | nil =>
    obtain rfl : q = outside := h
    exact hMore
  | cons x text ih => exact ⟨h.1, ih h.2⟩

/-- A space or a semicolon stands at the start, or nothing. -/
def Breaks (rest : List Char) : Prop := ∀ x ∈ rest.head?, x = ' ' ∨ x = ';'

theorem Unbroken.not_breaks {x : Char} {text rest : List Char} (h : outside.Unbroken (x :: text))
    (hBreaks : Breaks (x :: text ++ rest)) : False := by
  obtain ⟨hSpace, hSemicolon⟩ := h.1 rfl
  rcases hBreaks x rfl with hx | hx
  · exact hSpace hx
  · exact hSemicolon hx

theorem Unbroken.cut {q : Quoting} {text text' rest rest' : List Char} (h : q.Unbroken text)
    (h' : q.Unbroken text') (hBreaks : Breaks rest) (hBreaks' : Breaks rest')
    (hSame : text ++ rest = text' ++ rest') : text = text' ∧ rest = rest' := by
  induction text generalizing q text' with
  | nil =>
    obtain rfl : q = outside := h
    cases text' with
    | nil => exact ⟨rfl, hSame⟩
    | cons x text' =>
      have hRest : rest = x :: text' ++ rest' := hSame
      exact (h'.not_breaks (hRest ▸ hBreaks)).elim
  | cons x text ih =>
    cases text' with
    | nil =>
      obtain rfl : q = outside := h'
      have hRest : x :: text ++ rest = rest' := hSame
      exact (h.not_breaks (hRest ▸ hBreaks')).elim
    | cons y text' =>
      obtain ⟨rfl, hMore⟩ := List.cons.inj hSame
      obtain ⟨rfl, hRest⟩ := ih h.2 h'.2 hMore
      exact ⟨rfl, hRest⟩

/-- A character that stands for itself outside quotes. -/
def isBare (x : Char) : Bool := x != ' ' && x != ';' && x != '\'' && x != '\\'

theorem isBare_of_plain {text : List Char} (h : text.all CommandLine.isPlain = true) :
    text.all isBare = true := by
  rw [List.all_eq_true] at h ⊢
  intro x hx
  have hPlain := h x hx
  simp [isBare, CommandLine.plain_ne hPlain (y := ' ') rfl, CommandLine.plain_ne hPlain (y := ';') rfl,
    CommandLine.plain_ne hPlain (y := '\'') rfl, CommandLine.plain_ne hPlain (y := '\\') rfl]

theorem next_bare {x : Char} (h : isBare x = true) : outside.next x = outside := by
  simp only [isBare, Bool.and_eq_true, bne_iff_ne] at h
  rw [next, if_neg h.1.2, if_neg h.2]

theorem unbroken_of_bare {text : List Char} (h : text.all isBare = true) : outside.Unbroken text := by
  induction text with
  | nil => rfl
  | cons x text ih =>
    obtain ⟨hx, hText⟩ := Bool.and_eq_true_iff.mp h
    refine ⟨?_, ?_⟩
    · simp only [isBare, Bool.and_eq_true, bne_iff_ne] at hx
      exact fun _ => hx.1.1
    · rw [next_bare hx]
      exact ih hText

theorem read_of_bare {text : List Char} (h : text.all isBare = true) : outside.read text = text := by
  induction text with
  | nil => rfl
  | cons x text ih =>
    obtain ⟨hx, hText⟩ := Bool.and_eq_true_iff.mp h
    have hShown : outside.shows x = true := by
      simp only [isBare, Bool.and_eq_true] at hx
      simp [shows, hx.1.2, hx.2]
    rw [read, hShown, next_bare hx, ih hText]
    rfl

theorem escape_cons (x : Char) (text : List Char) : CommandLine.escape (x :: text) =
    (if x = '\'' then ['\'', '\\', '\'', '\''] else [x]) ++ CommandLine.escape text :=
  List.flatMap_cons

/-- A quote within the word ends the quoting, stands escaped, and starts the quoting again. -/
theorem unbroken_escape (text : List Char) : inside.Unbroken (CommandLine.escape text ++ ['\'']) := by
  induction text with
  | nil => simp [CommandLine.escape, Unbroken, next]
  | cons x text ih =>
    rw [escape_cons]
    by_cases hx : x = '\''
    · simpa [hx, Unbroken, next] using ih
    · simpa [hx, Unbroken, next] using ih

theorem read_escape (text : List Char) : inside.read (CommandLine.escape text ++ ['\'']) = text := by
  induction text with
  | nil => simp [CommandLine.escape, read, shows]
  | cons x text ih =>
    rw [escape_cons]
    by_cases hx : x = '\''
    · simpa [hx, read, shows, next] using ih
    · simpa [hx, read, shows, next] using ih

theorem unbroken_quote (word : String) : outside.Unbroken (CommandLine.quote word).toList := by
  rw [CommandLine.quote]
  split
  · simp [Unbroken, next]
  · split
    · next hPlain => exact unbroken_of_bare (isBare_of_plain hPlain)
    · rw [String.toList_ofList]
      exact ⟨by decide, unbroken_escape word.toList⟩

theorem read_quote (word : String) : outside.read (CommandLine.quote word).toList = word.toList := by
  rw [CommandLine.quote]
  split
  · next hEmpty =>
    obtain rfl : word = "" := by simpa using hEmpty
    decide
  · split
    · next hPlain => exact read_of_bare (isBare_of_plain hPlain)
    · rw [String.toList_ofList]
      exact read_escape word.toList

end Quoting

/-- The parts of a list are found from what all of the first one has and the second one lacks at its head. -/
theorem append_cut {α : Type} {P : α → Prop} {l l' more more' : List α} (h : ∀ a ∈ l, P a) (h' : ∀ a ∈ l', P a)
    (hMore : ∀ a ∈ more.head?, ¬P a) (hMore' : ∀ a ∈ more'.head?, ¬P a) (hSame : l ++ more = l' ++ more') :
    l = l' ∧ more = more' := by
  induction l generalizing l' with
  | nil =>
    cases l' with
    | nil => exact ⟨rfl, hSame⟩
    | cons b l' =>
      have hHead : more = b :: (l' ++ more') := hSame
      exact absurd (h' b List.mem_cons_self) (hMore b (by simp [hHead]))
  | cons a l ih =>
    cases l' with
    | nil =>
      have hHead : a :: (l ++ more) = more' := hSame
      exact absurd (h a List.mem_cons_self) (hMore' a (by simp [← hHead]))
    | cons b l' =>
      obtain ⟨rfl, hRest⟩ := List.cons.inj hSame
      obtain ⟨rfl, hMores⟩ := ih (List.forall_mem_cons.mp h).2 (List.forall_mem_cons.mp h').2 hRest
      exact ⟨rfl, hMores⟩

open Quoting

/-- A word of a shown script, which ends where it is seen to end. -/
def IsWhole (word : String) : Prop := word ≠ "" ∧ outside.Unbroken word.toList

namespace CommandLine

theorem eq_not_mem_name {name : String} (h : IsName name) : '=' ∉ name.toList := by
  intro hMem
  exact absurd (h.nameChar _ hMem) (by decide)

theorem isWhole_quote (word : String) : IsWhole (quote word) := ⟨quote_ne_empty word, unbroken_quote word⟩

theorem isWhole_assignment {entry : String × String} (h : IsName entry.1) : IsWhole (assignment entry) := by
  have hText : (assignment entry).toList = entry.1.toList ++ ('=' :: (quote entry.2).toList) := by
    simp [assignment]
  constructor
  · intro hEmpty
    rw [hEmpty] at hText
    simp at hText
  · rw [hText]
    refine (unbroken_of_bare (isBare_of_plain (name_plain h))).append ⟨by decide, ?_⟩
    exact unbroken_quote entry.2

theorem quote_injective {word word' : String} (h : quote word = quote word') : word = word' := by
  rw [← String.toList_inj, ← read_quote word, ← read_quote word', h]

theorem assignment_injective {entry entry' : String × String} (h : IsName entry.1) (h' : IsName entry'.1)
    (hSame : assignment entry = assignment entry') : entry = entry' := by
  obtain ⟨name, value⟩ := entry
  obtain ⟨name', value'⟩ := entry'
  have hText : name.toList ++ '=' :: (quote value).toList = name'.toList ++ '=' :: (quote value').toList := by
    simpa [assignment] using congrArg String.toList hSame
  have hFirst : ∀ {word : String}, IsName word → ∀ x ∈ word.toList, x ≠ '=' := by
    rintro word hWord x hx rfl
    exact eq_not_mem_name hWord hx
  obtain ⟨hName, hValue⟩ := append_cut (hFirst h) (hFirst h') (by simp) (by simp) hText
  obtain rfl : name = name' := String.toList_inj.mp hName
  rw [quote_injective (String.toList_inj.mp (List.cons.inj hValue).2)]

end CommandLine

namespace Target

theorem head_render (t : Target) : ∀ x ∈ t.render.toList.head?, x ≠ '<' ∧ x ≠ '>' := by
  intro x hx
  cases t with
  | file path =>
    rw [render] at hx
    rcases CommandLine.quote_cases path with ⟨-, hPlain, hQuote⟩ | ⟨text, hText⟩
    · rw [hQuote] at hx
      have hx := List.all_eq_true.mp hPlain x (List.mem_of_mem_head? hx)
      exact ⟨CommandLine.plain_ne hx rfl, CommandLine.plain_ne hx rfl⟩
    · rw [hText] at hx
      cases hx
      decide
  | fd n =>
    have hText : (render (.fd n)).toList = '&' :: (toString n).toList := by simp [render]
    rw [hText] at hx
    cases hx
    decide
  | null =>
    cases hx
    decide

theorem quote_ne_ampersand (path : String) (text : List Char) : (CommandLine.quote path).toList ≠ '&' :: text := by
  intro hSame
  rcases CommandLine.quote_cases path with ⟨-, hPlain, hQuote⟩ | ⟨other, hText⟩
  · rw [hQuote] at hSame
    rw [hSame] at hPlain
    cases hPlain
  · rw [hText] at hSame
    cases hSame

theorem quote_ne_nullDevice {path : String} (h : path ≠ nullDevice) : CommandLine.quote path ≠ nullDevice := by
  intro hSame
  have hNull : CommandLine.quote nullDevice = nullDevice := by decide
  exact h (CommandLine.quote_injective (hSame.trans hNull.symm))

theorem toList_render_fd (n : Int) : (render (.fd n)).toList = '&' :: (toString n).toList := by simp [render]

end Target

namespace Redirection

theorem target_injective {r r' : Redirection} (h : r.WellFormed) (h' : r'.WellFormed)
    (hSame : r.target.render = r'.target.render) : r.target = r'.target := by
  obtain ⟨fd, t, append⟩ := r
  obtain ⟨fd', t', append'⟩ := r'
  have hText := congrArg String.toList hSame
  have hDifferent : Target.render (.fd 1) ≠ Target.render (.fd 2) := by decide
  have hNull : ∀ n : Int, '&' :: (toString n).toList ≠ (Target.render .null).toList := by
    simp [Target.render, nullDevice]
  cases t with
  | file path =>
    cases t' with
    | file path' => rw [CommandLine.quote_injective hSame]
    | fd n' => exact (Target.quote_ne_ampersand path _ (hText.trans (Target.toList_render_fd n'))).elim
    | null => exact (Target.quote_ne_nullDevice (h.file path rfl).2 hSame).elim
  | fd n =>
    cases t' with
    | file path' => exact (Target.quote_ne_ampersand path' _ (hText.symm.trans (Target.toList_render_fd n))).elim
    | fd n' =>
      rcases (h.duplicate n rfl).1 with rfl | rfl <;> rcases (h'.duplicate n' rfl).1 with rfl | rfl
      · rfl
      · exact (hDifferent hSame).elim
      · exact (hDifferent hSame.symm).elim
      · rfl
    | null => exact (hNull n ((Target.toList_render_fd n).symm.trans hText)).elim
  | null =>
    cases t' with
    | file path' => exact (Target.quote_ne_nullDevice (h'.file path' rfl).2 hSame.symm).elim
    | fd n' => exact (hNull n' ((Target.toList_render_fd n').symm.trans hText.symm)).elim
    | null => rfl

def digits (fd : Int) : List Char := if fd = 0 then [] else (toString fd).toList

def arrow (r : Redirection) : List Char := if r.fd = 0 then ['<'] else if r.append then ['>', '>'] else ['>']

theorem toList_render (r : Redirection) :
    r.render.toList = digits r.fd ++ (r.arrow ++ r.target.render.toList) := by
  rw [render, operator, digits, arrow]
  split
  · simp
  · split <;> simp

def isArrow (x : Char) : Bool := x == '<' || x == '>'

theorem arrow_isArrow (r : Redirection) : ∀ x ∈ r.arrow, isArrow x = true := by
  rw [arrow]
  split
  · simp [isArrow]
  · split <;> simp [isArrow]

theorem exists_arrow (r : Redirection) : ∃ x more, r.arrow = x :: more := by
  rw [arrow]
  split
  · exact ⟨_, _, rfl⟩
  · split <;> exact ⟨_, _, rfl⟩

theorem head_target (r : Redirection) : ∀ x ∈ r.target.render.toList.head?, ¬isArrow x = true := by
  intro x hx
  simpa [isArrow] using r.target.head_render x hx

theorem digits_not_arrow {r : Redirection} (h : r.WellFormed) : ∀ x ∈ digits r.fd, ¬isArrow x = true := by
  have hAll : (digits r.fd).all (fun x => !isArrow x) = true := by
    rcases h.standard with hFd | hFd | hFd <;> rw [hFd] <;> rfl
  intro x hx
  simpa using List.all_eq_true.mp hAll x hx

theorem eq_of_render {r r' : Redirection} (h : r.WellFormed) (h' : r'.WellFormed)
    (hSame : r.render = r'.render) : r = r' := by
  have hText := congrArg String.toList hSame
  rw [toList_render, toList_render] at hText
  have hHead : ∀ q : Redirection, ∀ x ∈ (q.arrow ++ q.target.render.toList).head?, ¬¬isArrow x = true := by
    intro q x hx
    obtain ⟨y, more, hArrow⟩ := q.exists_arrow
    obtain rfl : y = x := by simpa [hArrow] using hx
    exact not_not_intro (q.arrow_isArrow y (by simp [hArrow]))
  obtain ⟨hDigits, hRest⟩ := append_cut (digits_not_arrow h) (digits_not_arrow h') (hHead r) (hHead r') hText
  obtain ⟨hArrow, hTarget⟩ := append_cut r.arrow_isArrow r'.arrow_isArrow r.head_target r'.head_target hRest
  have hTargets := target_injective h h' (String.toList_inj.mp hTarget)
  have hFds : r.fd = r'.fd := by
    rcases h.standard with hFd | hFd | hFd <;> rcases h'.standard with hFd' | hFd' | hFd' <;>
      rw [hFd, hFd'] at hDigits ⊢ <;> revert hDigits <;> decide
  have hAppends : r.append = r'.append := by
    by_cases hFd : r.fd = 0
    · rw [(h.input hFd).1, (h'.input (hFds ▸ hFd)).1]
    · have hFd' : ¬r'.fd = 0 := hFds ▸ hFd
      rw [arrow, arrow, if_neg hFd, if_neg hFd'] at hArrow
      revert hArrow
      cases r.append <;> cases r'.append <;> decide
  obtain ⟨fd, t, append⟩ := r
  obtain ⟨fd', t', append'⟩ := r'
  rw [Redirection.mk.injEq]
  exact ⟨hFds, hTargets, hAppends⟩

theorem exists_mark {r : Redirection} (h : r.WellFormed) :
    ∃ x more, digits r.fd ++ r.arrow = x :: more ∧ (x :: more).all isBare = true ∧ x ≠ '|' := by
  rw [arrow]
  rcases h.standard with hFd | hFd | hFd <;> rw [hFd]
  · exact ⟨'<', [], rfl, rfl, by decide⟩
  all_goals
    cases r.append <;> exact ⟨_, _, rfl, by decide, by decide⟩

theorem isWhole_render {r : Redirection} (h : r.WellFormed) : IsWhole r.render := by
  obtain ⟨x, more, hMark, hBare, hBar⟩ := exists_mark h
  have hTarget : outside.Unbroken r.target.render.toList := by
    cases hTarget : r.target with
    | file path => exact unbroken_quote path
    | fd n =>
      refine unbroken_of_bare ?_
      rcases (h.duplicate n hTarget).1 with rfl | rfl <;> decide
    | null => exact unbroken_of_bare (by decide)
  have hText : r.render.toList = x :: more ++ r.target.render.toList := by
    rw [toList_render, ← List.append_assoc, hMark]
  refine ⟨?_, ?_⟩
  · rintro hEmpty
    rw [hEmpty] at hText
    cases hText
  · rw [hText]
    exact (unbroken_of_bare hBare).append hTarget

theorem render_ne_quote {r : Redirection} (h : r.WellFormed) (word : String) :
    r.render ≠ CommandLine.quote word := by
  intro hSame
  rcases CommandLine.quote_cases word with ⟨-, hPlain, hQuote⟩ | ⟨text, hQuoted⟩
  · obtain ⟨x, more, hArrow⟩ := r.exists_arrow
    have hMem : x ∈ word.toList := by
      rw [← hQuote, ← hSame, toList_render, hArrow]
      simp
    have hx : CommandLine.isPlain x = true := List.all_eq_true.mp hPlain x hMem
    have hIn : x ≠ '<' := CommandLine.plain_ne hx rfl
    have hOut : x ≠ '>' := CommandLine.plain_ne hx rfl
    have hIs := r.arrow_isArrow x (by simp [hArrow])
    simp [isArrow, hIn, hOut] at hIs
  · obtain ⟨x, more, hMark, hBare, -⟩ := exists_mark h
    rw [← hSame, toList_render, ← List.append_assoc, hMark] at hQuoted
    obtain ⟨rfl, -⟩ := List.cons.inj hQuoted
    cases hBare

theorem head_render {r : Redirection} (h : r.WellFormed) : r.render.toList.head? ≠ some '|' := by
  obtain ⟨x, more, hMark, -, hBar⟩ := exists_mark h
  rw [toList_render, ← List.append_assoc, hMark]
  simpa using hBar

end Redirection

namespace CommandLine

theorem assignment_head {entry : String × String} (h : IsName entry.1) :
    ∃ x more, (assignment entry).toList = x :: more ∧ isNameStart x = true := by
  obtain ⟨x, more, hName, hStart, -⟩ := h
  exact ⟨x, more ++ '=' :: (quote entry.2).toList, by simp [assignment, hName], hStart⟩

theorem quote_ne_assignment {word : String} (hWord : ¬IsAssignment word) {entry : String × String}
    (h : IsName entry.1) : quote word ≠ assignment entry := by
  intro hSame
  rcases quote_cases word with ⟨-, -, hQuote⟩ | ⟨text, hQuoted⟩
  · exact hWord ⟨entry.1, quote entry.2, h, hQuote.symm.trans hSame⟩
  · obtain ⟨x, more, hText, hStart⟩ := assignment_head h
    rw [hSame, hText] at hQuoted
    obtain ⟨rfl, -⟩ := List.cons.inj hQuoted
    cases hStart

theorem head_quote (word : String) : (quote word).toList.head? ≠ some '|' := by
  intro hHead
  rcases quote_cases word with ⟨-, hPlain, hQuote⟩ | ⟨text, hQuoted⟩
  · rw [hQuote] at hHead
    have hBar : isPlain '|' = true := List.all_eq_true.mp hPlain _ (List.mem_of_mem_head? hHead)
    cases hBar
  · rw [hQuoted] at hHead
    cases hHead

end CommandLine

end Pipework
