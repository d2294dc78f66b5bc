import Pipework.Proofs.Script.Rendered.Word
import Pipework.Text.Utf8

/-!
# Command lines split into words

A POSIX shell splits a line at the blanks outside quotes. What stands between single quotes means
itself, and so does a character after a backslash; all other characters that mean something to a shell
must not stand outside quotes. Split like this, a command line gives back the words that it shows, and
the assignments in front of them in the order of their names.
-/

namespace Pipework

namespace Quoting

def isSpace (x : Char) : Bool := x == ' ' || x == '\t'

/-- Outside quotes these are more than themselves to a shell, and neither blanks nor marks around or
before a part of a word. -/
def specials : List Char := "|&;<>()$`\"\n*?[]#~!^\x7b\x7d".toList

def isSpecial (x : Char) : Bool := specials.contains x

@[simp] theorem isSpecial_quote : isSpecial '\'' = false := by decide

@[simp] theorem isSpecial_backslash : isSpecial '\\' = false := by decide

def ended (word : Option (List Char)) : List String := (word.map String.ofList).toList

/-- The words of a text, where `word` has been read of the first one if it has begun. There are none if a
quote is left open, or if a special character stands outside quotes. -/
def words : Quoting → Option (List Char) → List Char → Option (List String)
  | q, word, [] => if q = outside then some (ended word) else none
  | q, word, x :: text =>
    if q = outside ∧ isSpace x = true then (words outside none text).map (ended word ++ ·)
    else if q = outside ∧ isSpecial x = true then none
    else words (q.next x) (some (word.getD [] ++ if q.shows x then [x] else [])) text

theorem words_space (w text : List Char) :
    outside.words (some w) (' ' :: text) = (outside.words none text).map (String.ofList w :: ·) := by
  rw [words, if_pos ⟨rfl, rfl⟩]
  rfl

theorem words_bare {x : Char} (hx : CommandLine.isPlain x = true) (word : Option (List Char))
    (text : List Char) : outside.words word (x :: text) = outside.words (some (word.getD [] ++ [x])) text := by
  have hQuote : x ≠ '\'' := CommandLine.plain_ne hx rfl
  have hBackslash : x ≠ '\\' := CommandLine.plain_ne hx rfl
  have hSpace : isSpace x = false := by
    simp [isSpace, CommandLine.plain_ne hx (y := ' ') rfl, CommandLine.plain_ne hx (y := '\t') rfl]
  have hSpecial : ¬isSpecial x = true := by
    intro hSpecial
    have hOther : specials.all (fun y => !CommandLine.isPlain y) = true := by decide
    have hNot := List.all_eq_true.mp hOther x (List.contains_iff_mem.mp hSpecial)
    simp [hx] at hNot
  rw [words, if_neg (by simp [hSpace]), if_neg (by simp [hSpecial])]
  simp [next, shows, hQuote, hBackslash]

theorem words_plain {x : Char} {text : List Char} (h : (x :: text).all CommandLine.isPlain = true)
    (word : Option (List Char)) (more : List Char) :
    outside.words word (x :: text ++ more) = outside.words (some (word.getD [] ++ x :: text)) more := by
  induction text generalizing x word with
  | nil => exact words_bare (Bool.and_eq_true_iff.mp h).1 word more
  | cons y text ih =>
    obtain ⟨hx, hText⟩ := Bool.and_eq_true_iff.mp h
    rw [List.cons_append, words_bare hx, ih hText, Option.getD_some, List.append_assoc]
    rfl

/-- Between quotes every character is taken, until the quoting ends behind the text. -/
theorem words_escape (w text more : List Char) :
    inside.words (some w) (CommandLine.escape text ++ '\'' :: more) = outside.words (some (w ++ text)) more := by
  induction text generalizing w with
  | nil => simp [CommandLine.escape, words, next, shows]
  | cons x text ih =>
    rw [escape_cons]
    by_cases hx : x = '\''
    · subst hx
      simp [words, next, shows, isSpace, ih]
    · simp [words, next, shows, hx, ih]

theorem words_quote (word : Option (List Char)) (text : String) (more : List Char) :
    outside.words word ((CommandLine.quote text).toList ++ more) =
      outside.words (some (word.getD [] ++ text.toList)) more := by
  rw [CommandLine.quote]
  split
  · next hEmpty =>
    obtain rfl : text = "" := by simpa using hEmpty
    simp [words, next, shows, isSpace]
  · next hne =>
    split
    · next hPlain =>
      obtain ⟨x, rest, hText⟩ := List.exists_cons_of_ne_nil (show text.toList ≠ [] by simpa using hne)
      rw [hText] at hPlain ⊢
      exact words_plain hPlain word more
    · have hOpen : outside.words word ('\'' :: (CommandLine.escape text.toList ++ '\'' :: more)) =
          inside.words (some (word.getD [])) (CommandLine.escape text.toList ++ '\'' :: more) := by
        simp [words, next, shows, isSpace]
      rw [String.toList_ofList, List.cons_append, List.cons_append, List.append_assoc]
      exact hOpen.trans (words_escape _ _ _)

end Quoting

namespace CommandLine

open Quoting

/-- The words that a POSIX shell splits the line into. -/
def split (line : String) : Option (List String) := outside.words none line.toList

theorem split_join (args : List String) : split (join args) = some args := by
  induction args with
  | nil => decide
  | cons word args ih =>
    cases args with
    | nil =>
      have hJoin : (join [word]).toList = (quote word).toList ++ [] := by simp [join]
      rw [split, hJoin, words_quote]
      simp [words, ended]
    | cons next args =>
      have hJoin : (join (word :: next :: args)).toList =
          (quote word).toList ++ ' ' :: (join (next :: args)).toList := by
        simp only [join, List.map_cons, String.intercalate_cons_cons]
        simp
      rw [split] at ih
      rw [split, hJoin, words_quote, words_space, ih]
      simp

theorem join_injective {args args' : List String} (h : join args = join args') : args = args' := by
  have hSplit := split_join args
  rw [h, split_join] at hSplit
  exact (Option.some.inj hSplit).symm

theorem split_render {env : Table} (h : ∀ entry ∈ env, IsName entry.1) (args : List String) :
    split (render env args) = some (env.map (fun entry => entry.1 ++ "=" ++ entry.2) ++ args) := by
  induction env with
  | nil => exact split_join args
  | cons entry env ih =>
    obtain ⟨hName, hEnv⟩ := List.forall_mem_cons.mp h
    have hRender : (render (entry :: env) args).toList =
        entry.1.toList ++ ['='] ++ ((quote entry.2).toList ++ ' ' :: (render env args).toList) := by
      simp [render]
    have hPlain : (entry.1.toList ++ ['=']).all isPlain = true := by
      rw [List.all_append, name_plain hName]
      decide
    obtain ⟨x, rest, hText⟩ := List.exists_cons_of_ne_nil (show entry.1.toList ++ ['='] ≠ [] by simp)
    have hRest := ih hEnv
    rw [split] at hRest
    rw [split, hRender, hText, words_plain (hText ▸ hPlain), ← hText, words_quote, words_space, hRest]
    simp [String.append_assoc]

end CommandLine

namespace Table

theorem ordered_ofList (pairs : List (String × String)) : (ofList pairs).Ordered := by
  induction pairs with
  | nil => exact .nil
  | cons entry pairs ih => exact ih.insert entry.1 entry.2

theorem ofList_perm {pairs : List (String × String)} (h : (pairs.map Prod.fst).Nodup) :
    (ofList pairs).Perm pairs := by
  induction pairs with
  | nil => exact .refl _
  | cons entry pairs ih =>
    obtain ⟨hEntry, hPairs⟩ := List.nodup_cons.mp h
    have hRest := ih hPairs
    have hNew : ∀ other ∈ ofList pairs, other.1 ≠ entry.1 := by
      intro other hOther hSame
      exact hEntry (hSame ▸ List.mem_map_of_mem (hRest.mem_iff.mp hOther))
    exact (insert_perm entry.2 hNew).trans (hRest.cons entry)

end Table

/-- The order of ASCII texts is that of their bytes. -/
theorem encode_lt {cs ds : List Char} (h : ∀ x ∈ cs, x.toNat < 128) (h' : ∀ x ∈ ds, x.toNat < 128)
    (hLess : cs < ds) : Utf8.encode cs < Utf8.encode ds := by
  have hOne : ∀ x : Char, x.toNat < 128 → String.utf8EncodeChar x = [UInt8.ofNat x.toNat] := by
    intro x hx
    exact if_pos (Nat.le_of_lt_succ hx)
  induction cs generalizing ds with
  | nil =>
    cases ds with
    | nil => exact absurd hLess (List.lt_irrefl _)
    | cons y ds =>
      rw [Utf8.encode_cons, hOne y (h' y List.mem_cons_self)]
      exact List.nil_lt_cons _ _
  | cons x cs ih =>
    cases ds with
    | nil => exact absurd hLess (List.not_lt_nil _)
    | cons y ds =>
      obtain ⟨hx, hcs⟩ := List.forall_mem_cons.mp h
      obtain ⟨hy, hds⟩ := List.forall_mem_cons.mp h'
      rw [Utf8.encode_cons, Utf8.encode_cons, hOne x hx, hOne y hy]
      rcases List.cons_lt_cons_iff.mp hLess with hFirst | ⟨rfl, hRest⟩
      · refine List.cons_lt_cons_iff.mpr (.inl ?_)
        have hNat : x.toNat < y.toNat := hFirst
        rw [UInt8.lt_iff_toNat_lt, UInt8.toNat_ofNat_of_lt' (Nat.lt_trans hx (by decide)),
          UInt8.toNat_ofNat_of_lt' (Nat.lt_trans hy (by decide))]
        exact hNat
      · exact List.cons_lt_cons_iff.mpr (.inr ⟨rfl, ih hcs hds hRest⟩)

theorem IsName.ascii {name : String} (h : IsName name) : ∀ x ∈ name.toList, x.toNat < 128 := by
  intro x hx
  have hRange := nameChar_cases (h.nameChar x hx)
  omega

/-- However the variables are listed, they are shown in the order of the bytes of their names. -/
theorem CommandLine.split_shown (args : List String) :
    split (join args) = some args ∧
    (∀ pairs : List (String × String), (∀ entry ∈ pairs, IsName entry.1) → (pairs.map Prod.fst).Nodup →
      ∃ sorted : List (String × String), sorted.Perm pairs ∧
        sorted.Pairwise (fun a b => Utf8.encode a.1.toList < Utf8.encode b.1.toList) ∧
        split (render (Table.ofList pairs) args) =
          some (sorted.map (fun entry => entry.1 ++ "=" ++ entry.2) ++ args)) ∧
    ∀ other, join args = join other → args = other := by
  refine ⟨split_join args, ?_, fun other => join_injective⟩
  intro pairs hNames hKeys
  have hPerm := Table.ofList_perm hKeys
  have hNames' : ∀ entry ∈ Table.ofList pairs, IsName entry.1 :=
    fun entry hEntry => hNames entry (hPerm.mem_iff.mp hEntry)
  refine ⟨Table.ofList pairs, hPerm, ?_, split_render hNames' args⟩
  refine (Table.ordered_ofList pairs).imp_of_mem fun {a b} ha hb hLess => ?_
  exact encode_lt (hNames' a ha).ascii (hNames' b hb).ascii hLess

/-- The values and words are empty, or hold quotes, blanks, a backslash before a line end, and a dollar. -/
theorem CommandLine.split_shown_quotes :
    let pairs := [("b", "it's"), ("a", "")]
    let args := ["", "'", "a  b", "\\\n", "é$x"]
    (∀ entry ∈ pairs, IsName entry.1) ∧ (pairs.map Prod.fst).Nodup ∧
      render (Table.ofList pairs) args = "a='' b='it'\\''s' '' ''\\''' 'a  b' '\\\n' 'é$x'" ∧
      ∃ sorted : List (String × String), sorted.Perm pairs ∧
        split (render (Table.ofList pairs) args) =
          some (sorted.map (fun entry => entry.1 ++ "=" ++ entry.2) ++ args) := by
  intro pairs args
  have hNames : ∀ entry ∈ pairs, IsName entry.1 := by
    rw [List.forall_mem_cons, List.forall_mem_singleton]
    exact ⟨⟨'b', [], rfl, rfl, rfl⟩, ⟨'a', [], rfl, rfl, rfl⟩⟩
  have hKeys : (pairs.map Prod.fst).Nodup := by decide
  obtain ⟨-, hShown, -⟩ := CommandLine.split_shown args
  obtain ⟨sorted, hPerm, -, hSplit⟩ := hShown pairs hNames hKeys
  exact ⟨hNames, hKeys, by decide +kernel, sorted, hPerm, hSplit⟩

end Pipework
