import Mathlib.Data.List.Basic
import Pipework.Text.Utf8

/-!
# Where the characters of a string of bytes stand

A character is spelt in one way only, with one to four bytes, and no character begins inside another. So the
bytes alone tell, place by place, which character begins there and which bytes belong to none
(`Utf8.Mends`), and reading gives just that (`Utf8.exists_mends`).
-/

namespace Pipework.Utf8

open String (utf8EncodeChar)

/-- How the character of number `value` is spelt. -/
inductive Spelling (value : Nat) : Bytes → Prop
  | one {a : UInt8} (hLess : value < 0x80) (ha : a.toNat = value) : Spelling value [a]
  | two {a b : UInt8} (hLeast : 0x80 ≤ value) (hLess : value < 0x800) (ha : a.toNat = 0xC0 + value / 64)
      (hb : b.toNat = 0x80 + value % 64) : Spelling value [a, b]
  | three {a b c : UInt8} (hLeast : 0x800 ≤ value) (hLess : value < 0x10000) (ha : a.toNat = 0xE0 + value / 4096)
      (hb : b.toNat = 0x80 + value / 64 % 64) (hc : c.toNat = 0x80 + value % 64) : Spelling value [a, b, c]
  | four {a b c d : UInt8} (hLeast : 0x10000 ≤ value) (hLess : value < 0x110000)
      (ha : a.toNat = 0xF0 + value / 262144) (hb : b.toNat = 0x80 + value / 4096 % 64)
      (hc : c.toNat = 0x80 + value / 64 % 64) (hd : d.toNat = 0x80 + value % 64) : Spelling value [a, b, c, d]

theorem toNat_ofNat_of_isValidChar {n : Nat} (h : n.isValidChar) : (Char.ofNat n).toNat = n := by
  rw [Char.ofNat, dif_pos h]
  rfl

theorem toNat_lt (c : Char) : c.toNat < 0x110000 := by
  have hValid : c.toNat < 0xD800 ∨ 0xDFFF < c.toNat ∧ c.toNat < 0x110000 := c.valid
  omega

theorem encodeChar_spelling (c : Char) : Spelling c.toNat (utf8EncodeChar c) := by
  have hLess := toNat_lt c
  have hByte {n : Nat} (hn : n < 256) : (UInt8.ofNat n).toNat = n := by
    rw [UInt8.toNat_ofNat']
    exact Nat.mod_eq_of_lt hn
  change Spelling c.toNat
    (if c.toNat ≤ 0x7f then [UInt8.ofNat c.toNat]
    else if c.toNat ≤ 0x7ff then [UInt8.ofNat (c.toNat / 64 % 0x20 + 0xc0), UInt8.ofNat (c.toNat % 0x40 + 0x80)]
    else if c.toNat ≤ 0xffff then
      [UInt8.ofNat (c.toNat / 4096 % 0x10 + 0xe0), UInt8.ofNat (c.toNat / 64 % 0x40 + 0x80),
        UInt8.ofNat (c.toNat % 0x40 + 0x80)]
    else
      [UInt8.ofNat (c.toNat / 262144 % 0x08 + 0xf0), UInt8.ofNat (c.toNat / 4096 % 0x40 + 0x80),
        UInt8.ofNat (c.toNat / 64 % 0x40 + 0x80), UInt8.ofNat (c.toNat % 0x40 + 0x80)])
  split
  · exact .one (by omega) (hByte (by omega))
  · split
    · refine .two (by omega) (by omega) ?_ ?_ <;> rw [hByte (by omega)] <;> omega
    · split
      · refine .three (by omega) (by omega) ?_ ?_ ?_ <;> rw [hByte (by omega)] <;> omega
      · refine .four (by omega) (by omega) ?_ ?_ ?_ ?_ <;> rw [hByte (by omega)] <;> omega

theorem Spelling.unique {value : Nat} {bs cs : Bytes} (h : Spelling value bs) (h' : Spelling value cs) : bs = cs := by
  have hByte {a a' : UInt8} {n : Nat} (ha : a.toNat = n) (ha' : a'.toNat = n) : a = a' :=
    UInt8.toNat_inj.mp (ha.trans ha'.symm)
  cases h with
  | one hLess ha =>
    cases h' with
    | one hLess' ha' => rw [hByte ha ha']
    | _ => omega
  | two hLeast hLess ha hb =>
    cases h' with
    | two hLeast' hLess' ha' hb' => rw [hByte ha ha', hByte hb hb']
    | _ => omega
  | three hLeast hLess ha hb hc =>
    cases h' with
    | three hLeast' hLess' ha' hb' hc' => rw [hByte ha ha', hByte hb hb', hByte hc hc']
    | _ => omega
  | four hLeast hLess ha hb hc hd =>
    cases h' with
    | four hLeast' hLess' ha' hb' hc' hd' => rw [hByte ha ha', hByte hb hb', hByte hc hc', hByte hd hd']
    | _ => omega

theorem scalar?_eq_some {least value : Nat} {c : Char} (h : scalar? least value = some c) :
    least ≤ value ∧ c.toNat = value := by
  unfold scalar? at h
  split at h
  · next hScalar =>
    cases h
    exact ⟨hScalar.1, toNat_ofNat_of_isValidChar hScalar.2⟩
  · cases h

theorem scalar?_toNat {least : Nat} {c : Char} (h : least ≤ c.toNat) : scalar? least c.toNat = some c := by
  have hValid : c.toNat.isValidChar := c.valid
  rw [scalar?, if_pos ⟨h, hValid⟩, Char.ofNat_toNat]

theorem isTail_iff {b : UInt8} : isTail b = true ↔ b.toNat = 0x80 + bits b := by
  have hb := b.toNat_lt
  simp only [isTail, bits, beq_iff_eq]
  omega

theorem bits_lt (b : UInt8) : bits b < 64 := Nat.mod_lt _ (by decide)

theorem spelling_of_lead? {a : UInt8} {rest : Bytes} {c : Char} {n : Nat} (h : lead? a rest = some (c, n)) :
    n ≤ rest.length ∧ Spelling c.toNat (a :: rest.take n) := by
  have ha := a.toNat_lt
  unfold lead? at h
  dsimp only at h
  split at h
  · next hSmall =>
    cases h
    have hc := toNat_ofNat_of_isValidChar (n := a.toNat) (.inl (by omega))
    exact ⟨Nat.zero_le _, .one (by omega) hc.symm⟩
  · next hLarge =>
    cases rest with
    | nil => cases h
    | cons b rest =>
      have hb := bits_lt b
      dsimp only at h
      split at h
      · cases h
      · next hTail =>
        simp only [Bool.or_eq_true, decide_eq_true_eq, Bool.not_eq_true', not_or, Bool.not_eq_false] at hTail
        have hTailB := isTail_iff.mp hTail.2
        split at h
        · next hTwo =>
          obtain ⟨c', hScalar, hEq⟩ := Option.map_eq_some_iff.mp h
          cases hEq
          obtain ⟨hLeast, hValue⟩ := scalar?_eq_some hScalar
          exact ⟨by simp, .two (by omega) (by omega) (by omega) (by omega)⟩
        · next hTwo =>
          cases rest with
          | nil => cases h
          | cons c₂ rest =>
            have hc := bits_lt c₂
            dsimp only at h
            split at h
            · cases h
            · next hTail₂ =>
              have hTailC := isTail_iff.mp (by simpa using hTail₂)
              split at h
              · next hThree =>
                obtain ⟨c', hScalar, hEq⟩ := Option.map_eq_some_iff.mp h
                cases hEq
                obtain ⟨hLeast, hValue⟩ := scalar?_eq_some hScalar
                exact ⟨by simp, .three (by omega) (by omega) (by omega) (by omega) (by omega)⟩
              · next hThree =>
                cases rest with
                | nil => cases h
                | cons d rest =>
                  have hd := bits_lt d
                  dsimp only at h
                  split at h
                  · next hFour =>
                    simp only [Bool.and_eq_true, decide_eq_true_eq] at hFour
                    have hTailD := isTail_iff.mp hFour.2
                    obtain ⟨c', hScalar, hEq⟩ := Option.map_eq_some_iff.mp h
                    cases hEq
                    obtain ⟨hLeast, hValue⟩ := scalar?_eq_some hScalar
                    have hLess := toNat_lt c
                    exact ⟨by simp, .four (by omega) (by omega) (by omega) (by omega) (by omega) (by omega)⟩
                  · cases h

theorem lead?_of_spelling {a : UInt8} {c : Char} {tail : Bytes} (rest : Bytes) (h : Spelling c.toNat (a :: tail)) :
    lead? a (tail ++ rest) = some (c, tail.length) := by
  have hTail {b : UInt8} {n : Nat} (hb : b.toNat = 0x80 + n % 64) : isTail b = true ∧ bits b = n % 64 := by
    have hBits : bits b = n % 64 := by unfold bits; omega
    exact ⟨isTail_iff.mpr (by omega), hBits⟩
  have hRead {least value : Nat} (n : Nat) (hLeast : least ≤ c.toNat) (hValue : value = c.toNat) :
      (scalar? least value).map (·, n) = some (c, n) := by
    rw [hValue, scalar?_toNat hLeast]
    rfl
  cases h with
  | one hLess ha =>
    simp [lead?, ha, hLess, Char.ofNat_toNat]
  | two hLeast hLess ha hb =>
    obtain ⟨hIs, hBits⟩ := hTail hb
    have h₁ : ¬ a.toNat < 0x80 := by omega
    have h₂ : ¬ a.toNat < 0xC0 := by omega
    have h₃ : a.toNat < 0xE0 := by omega
    simp only [List.cons_append, List.nil_append, lead?, if_neg h₁, h₂, hIs, if_pos h₃, decide_false, Bool.not_true,
      Bool.or_false, if_false, Bool.false_eq_true]
    exact hRead 1 hLeast (by omega)
  | three hLeast hLess ha hb hc =>
    obtain ⟨hIs, hBits⟩ := hTail hb
    obtain ⟨hIs', hBits'⟩ := hTail hc
    have h₁ : ¬ a.toNat < 0x80 := by omega
    have h₂ : ¬ a.toNat < 0xC0 := by omega
    have h₃ : ¬ a.toNat < 0xE0 := by omega
    have h₄ : a.toNat < 0xF0 := by omega
    simp only [List.cons_append, List.nil_append, lead?, if_neg h₁, h₂, hIs, hIs', if_neg h₃, if_pos h₄, decide_false,
      Bool.not_true, Bool.or_false, if_false, Bool.false_eq_true]
    exact hRead 2 hLeast (by omega)
  | four hLeast hLess ha hb hc hd =>
    obtain ⟨hIs, hBits⟩ := hTail hb
    obtain ⟨hIs', hBits'⟩ := hTail hc
    obtain ⟨hIs'', hBits''⟩ := hTail hd
    have h₁ : ¬ a.toNat < 0x80 := by omega
    have h₂ : ¬ a.toNat < 0xC0 := by omega
    have h₃ : ¬ a.toNat < 0xE0 := by omega
    have h₄ : ¬ a.toNat < 0xF0 := by omega
    have h₅ : a.toNat < 0xF8 := by omega
    simp only [List.cons_append, List.nil_append, lead?, if_neg h₁, h₂, hIs, hIs', hIs'', if_neg h₃, if_neg h₄, h₅,
      decide_false, decide_true, Bool.not_true, Bool.or_false, Bool.and_true, if_false, if_true, Bool.false_eq_true]
    exact hRead 3 hLeast (by omega)

/-- The first byte of a character is no later byte of one, and the later ones are. -/
theorem Spelling.marked {value : Nat} {bs : Bytes} (h : Spelling value bs) :
    ∃ a tail, bs = a :: tail ∧ isTail a = false ∧ ∀ b ∈ tail, isTail b = true := by
  have hTail {b : UInt8} {n : Nat} (hb : b.toNat = 0x80 + n % 64) : isTail b = true :=
    isTail_iff.mpr (by unfold bits; omega)
  have hLead {a : UInt8} (ha : a.toNat < 0x80 ∨ 0xC0 ≤ a.toNat) : isTail a = false := by
    rw [isTail, beq_eq_false_iff_ne]
    omega
  cases h with
  | one hLess ha => exact ⟨_, _, rfl, hLead (by omega), by simp⟩
  | two hLeast hLess ha hb => exact ⟨_, _, rfl, hLead (by omega), by simp [hTail hb]⟩
  | three hLeast hLess ha hb hc => exact ⟨_, _, rfl, hLead (by omega), by simp [hTail hb, hTail hc]⟩
  | four hLeast hLess ha hb hc hd =>
    exact ⟨_, _, rfl, hLead (by omega), by simp [hTail hb, hTail hc, hTail hd]⟩

/-- The bytes from place `i` on begin with the character `c`. -/
def Spells (bs : Bytes) (i : Nat) (c : Char) : Prop := utf8EncodeChar c <+: bs.drop i

/-- The byte at place `i` belongs to no character, wherever in `bs` that would begin. -/
def Stray (bs : Bytes) (i : Nat) : Prop :=
  i < bs.length ∧ ∀ j c, Spells bs j c → ¬ (j ≤ i ∧ i < j + c.utf8Size)

/-- What `bs` says place by place: its characters where they begin, and the replacement character at
each byte that belongs to none. -/
structure Mends (bs : Bytes) (marks : List (Nat × Char)) : Prop where
  ordered : (marks.map Prod.fst).Pairwise (· < ·)
  mem_iff : ∀ i c, (i, c) ∈ marks ↔ Spells bs i c ∨ Stray bs i ∧ c = replacement

theorem lead?_eq_some {a : UInt8} {rest : Bytes} {c : Char} {n : Nat} :
    lead? a rest = some (c, n) ↔ Spells (a :: rest) 0 c ∧ n + 1 = c.utf8Size := by
  have hSpelling := encodeChar_spelling c
  constructor
  · intro h
    obtain ⟨hn, hRead⟩ := spelling_of_lead? h
    have hEq := hRead.unique hSpelling
    refine ⟨?_, ?_⟩
    · rw [Spells, ← hEq]
      exact List.prefix_cons_iff.mpr (.inr ⟨_, rfl, List.take_prefix _ _⟩)
    · rw [← String.length_utf8EncodeChar, ← hEq]
      simp [hn]
  · rintro ⟨⟨rest', hRest⟩, hSize⟩
    obtain ⟨a', tail, hEq, -, -⟩ := hSpelling.marked
    rw [hEq, List.drop_zero, List.cons_append] at hRest
    obtain ⟨rfl, rfl⟩ := List.cons.inj hRest
    have hLength := congrArg List.length hEq
    rw [String.length_utf8EncodeChar, ← hSize, List.length_cons] at hLength
    rw [lead?_of_spelling rest' (hEq ▸ hSpelling)]
    simp only [Nat.add_right_cancel hLength]

theorem Spells.unique {bs : Bytes} {i : Nat} {c d : Char} (hc : Spells bs i c) (hd : Spells bs i d) : c = d := by
  have hRead {e : Char} (he : Spells bs i e) :
      ∃ a rest, bs.drop i = a :: rest ∧ lead? a rest = some (e, e.utf8Size - 1) := by
    obtain ⟨a, tail, hEq, -, -⟩ := (encodeChar_spelling e).marked
    obtain ⟨rest, hRest⟩ := he
    rw [hEq, List.cons_append] at hRest
    have hSize := e.utf8Size_pos
    exact ⟨a, tail ++ rest, hRest.symm, lead?_eq_some.mpr ⟨⟨rest, by rw [hEq]; rfl⟩, by omega⟩⟩
  obtain ⟨a, rest, hDrop, hLead⟩ := hRead hc
  obtain ⟨a', rest', hDrop', hLead'⟩ := hRead hd
  obtain ⟨rfl, rfl⟩ := List.cons.inj (hDrop.symm.trans hDrop')
  exact congrArg Prod.fst (Option.some.inj (hLead.symm.trans hLead'))

theorem spells_drop {bs : Bytes} {k i : Nat} {c : Char} : Spells (bs.drop k) i c ↔ Spells bs (k + i) c := by
  rw [Spells, Spells, List.drop_drop]

theorem Spells.within {bs : Bytes} {i : Nat} {c : Char} (h : Spells bs i c) : i + c.utf8Size ≤ bs.length := by
  have hLength := h.length_le
  rw [String.length_utf8EncodeChar, List.length_drop] at hLength
  have hSize := c.utf8Size_pos
  omega

theorem Spells.isTail {bs : Bytes} {i k : Nat} {c : Char} (h : Spells bs i c) (hk : k < c.utf8Size) :
    ∃ b, bs[i + k]? = some b ∧ (Utf8.isTail b = false ↔ k = 0) := by
  obtain ⟨a, tail, hEq, hLead, hTail⟩ := (encodeChar_spelling c).marked
  obtain ⟨rest, hRest⟩ := h
  rw [← String.length_utf8EncodeChar, hEq] at hk
  rw [← List.getElem?_drop, ← hRest, hEq, List.getElem?_append_left hk]
  cases k with
  | zero => exact ⟨a, rfl, by simp [hLead]⟩
  | succ k =>
    refine ⟨tail.get ⟨k, Nat.lt_of_succ_lt_succ hk⟩, by simp, ?_⟩
    simp [hTail _ (List.getElem_mem _)]

/-- No character begins inside another. -/
theorem Spells.apart {bs : Bytes} {i j : Nat} {c d : Char} (hc : Spells bs i c) (hd : Spells bs j d) (hFrom : i ≤ j)
    (hTo : j < i + c.utf8Size) : j = i := by
  obtain ⟨b, hByte, hInside⟩ := hc.isTail (k := j - i) (by omega)
  obtain ⟨b', hByte', hLead⟩ := hd.isTail (k := 0) d.utf8Size_pos
  rw [Nat.add_sub_cancel' hFrom] at hByte
  rw [Nat.add_zero, hByte] at hByte'
  cases hByte'
  have hZero := hInside.mp (hLead.mpr rfl)
  omega

theorem Mends.nil : Mends [] [] where
  ordered := .nil
  mem_iff i c := by
    have hSpells : ¬ Spells [] i c := by
      intro h
      have hWithin := h.within
      have hSize := c.utf8Size_pos
      rw [List.length_nil] at hWithin
      omega
    simp [hSpells, Stray]

/-- Both for a character of `k` bytes and for a stray byte: what follows is mended by itself. -/
theorem Mends.cons {bs : Bytes} {k : Nat} {c : Char} {marks : List (Nat × Char)} (hk : 0 < k)
    (hSpelt : ∀ i d, i < k → Spells bs i d → i = 0 ∧ d.utf8Size = k)
    (hHead : ∀ i d, i < k → (Spells bs i d ∨ Stray bs i ∧ d = replacement ↔ i = 0 ∧ d = c))
    (hRest : Mends (bs.drop k) marks) : Mends bs ((0, c) :: marks.map fun mark => (k + mark.1, mark.2)) where
  ordered := by
    simp only [List.map_cons, List.map_map, List.pairwise_cons, List.mem_map, Function.comp_apply]
    refine ⟨?_, ?_⟩
    · rintro i ⟨mark, -, rfl⟩
      omega
    · have hOrdered := hRest.ordered
      rw [List.pairwise_map] at hOrdered ⊢
      exact hOrdered.imp fun h => Nat.add_lt_add_left h k
  mem_iff i d := by
    have hStray (i : Nat) : Stray (bs.drop k) i ↔ Stray bs (k + i) := by
      simp only [Stray, List.length_drop, spells_drop]
      refine and_congr (by omega) ⟨fun h j d hSpells hCovers => ?_, fun h j d hSpells hCovers => ?_⟩
      · by_cases hj : j < k
        · have hSize := hSpelt j d hj hSpells
          omega
        · refine h (j - k) d (by rwa [Nat.add_sub_cancel' (by omega)]) (by omega)
      · exact h (k + j) d hSpells (by omega)
    simp only [List.mem_cons, Prod.mk.injEq, List.mem_map, Prod.exists]
    by_cases hi : i < k
    · rw [hHead i d hi]
      refine or_iff_left ?_
      rintro ⟨j, e, -, hEq, -⟩
      omega
    · obtain ⟨j, rfl⟩ := Nat.exists_eq_add_of_le (Nat.le_of_not_lt hi)
      rw [← spells_drop, ← hStray, ← hRest.mem_iff j d]
      constructor
      · rintro (⟨hZero, -⟩ | ⟨j', e, hMem, hEq, rfl⟩)
        · omega
        · rwa [Nat.add_left_cancel hEq] at hMem
      · intro hMem
        exact .inr ⟨j, d, hMem, rfl, rfl⟩

theorem Mends.char {c : Char} {rest : Bytes} {marks : List (Nat × Char)} (hRest : Mends rest marks) :
    Mends (utf8EncodeChar c ++ rest) ((0, c) :: marks.map fun mark => (c.utf8Size + mark.1, mark.2)) := by
  have hSpells : Spells (utf8EncodeChar c ++ rest) 0 c := List.prefix_append _ _
  have hOnly {i : Nat} {d : Char} (hi : i < c.utf8Size) (h : Spells (utf8EncodeChar c ++ rest) i d) :
      i = 0 ∧ d = c := by
    have hZero : i = 0 := hSpells.apart h (Nat.zero_le i) (by omega)
    subst hZero
    exact ⟨rfl, h.unique hSpells⟩
  refine .cons c.utf8Size_pos ?_ ?_ ?_
  · intro i d hi h
    obtain ⟨rfl, rfl⟩ := hOnly hi h
    exact ⟨rfl, rfl⟩
  · intro i d hi
    constructor
    · rintro (h | ⟨h, -⟩)
      · exact hOnly hi h
      · exact absurd ⟨Nat.zero_le i, by omega⟩ (h.2 0 c hSpells)
    · rintro ⟨rfl, rfl⟩
      exact .inl hSpells
  · rwa [← String.length_utf8EncodeChar, List.drop_left]

theorem Mends.stray {a : UInt8} {rest : Bytes} {marks : List (Nat × Char)} (ha : ∀ c, ¬ Spells (a :: rest) 0 c)
    (hRest : Mends rest marks) :
    Mends (a :: rest) ((0, replacement) :: marks.map fun mark => (1 + mark.1, mark.2)) := by
  refine .cons Nat.one_pos ?_ ?_ hRest
  · intro i d hi h
    obtain rfl : i = 0 := by omega
    exact absurd h (ha d)
  · intro i d hi
    obtain rfl : i = 0 := by omega
    have hStray : Stray (a :: rest) 0 := by
      refine ⟨Nat.succ_pos _, fun j c h hCovers => ?_⟩
      obtain rfl : j = 0 := by omega
      exact ha c h
    simp [ha d, hStray]

theorem Mends.unique {bs : Bytes} {marks others : List (Nat × Char)} (h : Mends bs marks) (h' : Mends bs others) :
    marks = others := by
  have hNodup {marks : List (Nat × Char)} (h : Mends bs marks) : marks.Pairwise fun m n => m.1 < n.1 :=
    List.pairwise_map.mp h.ordered
  have hPerm : marks.Perm others := by
    refine (List.perm_ext_iff_of_nodup ?_ ?_).mpr fun ⟨i, c⟩ => (h.mem_iff i c).trans (h'.mem_iff i c).symm
    · exact (hNodup h).imp fun hLess hEq => absurd (congrArg Prod.fst hEq) (Nat.ne_of_lt hLess)
    · exact (hNodup h').imp fun hLess hEq => absurd (congrArg Prod.fst hEq) (Nat.ne_of_lt hLess)
  exact hPerm.eq_of_pairwise (fun m n _ _ h₁ h₂ => absurd h₁ (Nat.lt_asymm h₂)) (hNodup h) (hNodup h')

theorem decodeOnto_stray {a : UInt8} {rest : Bytes} (h : lead? a rest = none) (seen : List Char) :
    decodeOnto seen (a :: rest) = decodeOnto (replacement :: seen) rest := by
  rw [decodeOnto, h]

theorem decodeOnto_some {a : UInt8} {rest : Bytes} {c : Char} {n : Nat} (h : lead? a rest = some (c, n))
    (seen : List Char) : decodeOnto seen (a :: rest) = decodeOnto (c :: seen) (rest.drop n) := by
  rw [decodeOnto, h]

theorem decodeOnto_eq (seen : List Char) (bs : Bytes) : decodeOnto seen bs = seen.reverse ++ decode bs := by
  induction bs using (measure List.length).wf.induction generalizing seen with
  | h bs ih =>
    cases bs with
    | nil => simp [decode, decodeOnto]
    | cons a rest =>
      cases hLead : lead? a rest with
      | none =>
        have hLess : rest.length < (a :: rest).length := by simp
        rw [decode, decodeOnto_stray hLead, decodeOnto_stray hLead, ih rest hLess, ih rest hLess]
        simp
      | some found =>
        have hLess : (rest.drop found.2).length < (a :: rest).length := by
          rw [List.length_drop, List.length_cons]
          omega
        rw [decode, decodeOnto_some hLead, decodeOnto_some hLead, ih _ hLess, ih _ hLess]
        simp

@[simp] theorem decode_nil : decode [] = [] := by
  simp [decode, decodeOnto]

theorem decode_stray {a : UInt8} {rest : Bytes} (h : lead? a rest = none) :
    decode (a :: rest) = replacement :: decode rest := by
  rw [decode, decodeOnto_stray h]
  exact decodeOnto_eq [replacement] rest

theorem lead?_encode_append (c : Char) (rest : Bytes) :
    ∃ a tail, utf8EncodeChar c = a :: tail ∧ lead? a (tail ++ rest) = some (c, tail.length) := by
  have hSpelling := encodeChar_spelling c
  obtain ⟨a, tail, hEq, -, -⟩ := hSpelling.marked
  exact ⟨a, tail, hEq, lead?_of_spelling rest (hEq ▸ hSpelling)⟩

theorem decode_char (c : Char) (rest : Bytes) : decode (utf8EncodeChar c ++ rest) = c :: decode rest := by
  obtain ⟨a, tail, hEq, hLead⟩ := lead?_encode_append c rest
  rw [hEq, List.cons_append, decode, decodeOnto_some hLead, decodeOnto_eq, List.drop_left]
  rfl

theorem isValid_char (c : Char) (rest : Bytes) : isValid (utf8EncodeChar c ++ rest) = isValid rest := by
  obtain ⟨a, tail, hEq, hLead⟩ := lead?_encode_append c rest
  rw [hEq, List.cons_append, isValid, hLead]
  dsimp only
  rw [List.drop_left]

/-- Induction along the bytes as they are read: a character at a time, or a stray byte. -/
theorem reading_induction {motive : Bytes → Prop} (nil : motive [])
    (char : ∀ c rest, motive rest → motive (utf8EncodeChar c ++ rest))
    (stray : ∀ a rest, lead? a rest = none → motive rest → motive (a :: rest)) (bs : Bytes) : motive bs := by
  induction bs using (measure List.length).wf.induction with
  | h bs ih =>
    cases bs with
    | nil => exact nil
    | cons a rest =>
      cases hLead : lead? a rest with
      | none => exact stray a rest hLead (ih rest (Nat.lt_succ_self rest.length))
      | some found =>
        obtain ⟨c, n⟩ := found
        obtain ⟨⟨rest', hRest⟩, hSize⟩ := lead?_eq_some.mp hLead
        rw [List.drop_zero] at hRest
        have hLength := congrArg List.length hRest
        rw [List.length_append, String.length_utf8EncodeChar] at hLength
        rw [← hRest]
        exact char c rest' (ih rest' (by change rest'.length < (a :: rest).length; omega))

theorem not_spells_of_stray {a : UInt8} {rest : Bytes} (h : lead? a rest = none) (c : Char) :
    ¬ Spells (a :: rest) 0 c := by
  intro hSpells
  have hSize := c.utf8Size_pos
  have hLead := lead?_eq_some.mpr ⟨hSpells, Nat.sub_add_cancel hSize⟩
  cases h.symm.trans hLead

theorem exists_mends (bs : Bytes) : ∃ marks, Mends bs marks ∧ decode bs = marks.map Prod.snd := by
  have hShift (k : Nat) (marks : List (Nat × Char)) :
      (marks.map fun mark => (k + mark.1, mark.2)).map Prod.snd = marks.map Prod.snd := by
    rw [List.map_map]
    rfl
  induction bs using reading_induction with
  | nil => exact ⟨[], .nil, decode_nil⟩
  | char c rest ih =>
    obtain ⟨marks, hMends, hText⟩ := ih
    exact ⟨_, hMends.char, by rw [decode_char, hText, List.map_cons, hShift]⟩
  | stray a rest hStray ih =>
    obtain ⟨marks, hMends, hText⟩ := ih
    exact ⟨_, hMends.stray (not_spells_of_stray hStray), by rw [decode_stray hStray, hText, List.map_cons, hShift]⟩

theorem isValid_encode (cs : List Char) : isValid (encode cs) = true := by
  induction cs with
  | nil => simp [isValid]
  | cons c cs ih => rw [encode_cons, isValid_char, ih]

theorem decode_encode (cs : List Char) : decode (encode cs) = cs := by
  induction cs with
  | nil => exact decode_nil
  | cons c cs ih => rw [encode_cons, decode_char, ih]

theorem encode_decode {bs : Bytes} (h : isValid bs = true) : encode (decode bs) = bs := by
  induction bs using reading_induction with
  | nil => rw [decode_nil, encode_nil]
  | char c rest ih => rw [decode_char, encode_cons, ih (by rwa [isValid_char] at h)]
  | stray a rest hStray ih => simp [isValid, hStray] at h

theorem lead?_append_newline {a : UInt8} {rest : Bytes} (h : lead? a rest = none) : lead? a (rest ++ [10]) = none := by
  refine Option.eq_none_iff_forall_ne_some.mpr fun (c, n) hLead => ?_
  obtain ⟨hSpells, hSize⟩ := lead?_eq_some.mp hLead
  have hWithin := hSpells.within
  rw [List.length_cons, List.length_append, List.length_singleton] at hWithin
  obtain hLess | hAll := Nat.lt_or_eq_of_le hWithin
  · -- the character would have ended before the newline
    have hPrefix : utf8EncodeChar c <+: a :: rest := by
      refine List.prefix_of_prefix_length_le hSpells ⟨[10], rfl⟩ ?_
      rw [String.length_utf8EncodeChar, List.length_cons]
      omega
    exact not_spells_of_stray h c hPrefix
  · -- the newline would be its last byte
    obtain ⟨b, hByte, hFirst⟩ := hSpells.isTail (k := c.utf8Size - 1) (by omega)
    have hPlace : 0 + (c.utf8Size - 1) = rest.length + 1 := by omega
    rw [hPlace, List.getElem?_cons_succ, List.getElem?_concat_length] at hByte
    cases hByte
    have hZero := hFirst.mp rfl
    omega

theorem decode_append_newline (bs : Bytes) : decode (bs ++ [10]) = decode bs ++ ['\n'] := by
  have hNewline : decode [10] = ['\n'] := (decode_char '\n' []).trans (by rw [decode_nil])
  induction bs using reading_induction with
  | nil => rw [decode_nil, List.nil_append, hNewline, List.nil_append]
  | char c rest ih => rw [List.append_assoc, decode_char, decode_char, ih, List.cons_append]
  | stray a rest hStray ih =>
    rw [List.cons_append, decode_stray hStray, decode_stray (lead?_append_newline hStray), ih, List.cons_append]

theorem encode_decode_ne_nil {bs : Bytes} (h : bs ≠ []) : encode (decode bs) ≠ [] := by
  have hChar (c : Char) (cs : List Char) : encode (c :: cs) ≠ [] :=
    List.append_ne_nil_of_left_ne_nil String.utf8EncodeChar_ne_nil _
  induction bs using reading_induction with
  | nil => exact absurd rfl h
  | char c rest ih => exact decode_char c rest ▸ hChar c _
  | stray a rest hStray ih => exact decode_stray hStray ▸ hChar replacement _

/-- Replacing makes no newline at the end. -/
theorem getLast?_of_encode_decode {bs : Bytes} (h : (encode (decode bs)).getLast? = some 10) :
    bs.getLast? = some 10 := by
  have hBehind (front' : Bytes) {front rest : Bytes} (hNe : rest ≠ [])
      (ih : (encode (decode rest)).getLast? = some 10 → rest.getLast? = some 10)
      (h : (front ++ encode (decode rest)).getLast? = some 10) : (front' ++ rest).getLast? = some 10 := by
    rw [List.getLast?_append_of_ne_nil _ (encode_decode_ne_nil hNe)] at h
    rw [List.getLast?_append_of_ne_nil _ hNe]
    exact ih h
  induction bs using reading_induction with
  | nil => rwa [decode_nil] at h
  | char c rest ih =>
    rw [decode_char, encode_cons] at h
    by_cases hNil : rest = []
    · subst hNil
      rwa [decode_nil] at h
    · exact hBehind _ hNil ih h
  | stray a rest hStray ih =>
    rw [decode_stray hStray, encode_cons] at h
    by_cases hNil : rest = []
    · subst hNil
      rw [decode_nil] at h
      exact absurd h (by decide)
    · exact hBehind [a] hNil ih h

end Pipework.Utf8
