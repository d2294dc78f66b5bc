import Pipework.Proofs.Text.Places

/-!
# The text that the output of a command stands for

Captured text is well-formed whatever was written, it says what the bytes say, and the newline at the end may
be dropped before or after the other bytes are read.
-/

namespace Pipework

theorem chomp_append_newline (bs : Bytes) : chomp (bs ++ [10]) = bs := by
  simp [chomp]

theorem chomp_of_ne {bs : Bytes} (h : bs.getLast? ≠ some 10) : chomp bs = bs := if_neg h

theorem utf8_capturedText (t : Bytes) : utf8 (capturedText t) = Utf8.encode (Utf8.decode (chomp t)) := by
  rw [utf8, capturedText, String.toList_ofList]

theorem chomp_encode_decode (t : Bytes) :
    chomp (Utf8.encode (Utf8.decode t)) = Utf8.encode (Utf8.decode (chomp t)) := by
  by_cases hLast : t.getLast? = some 10
  · obtain ⟨s, rfl⟩ := List.getLast?_eq_some_iff.mp hLast
    rw [chomp_append_newline, Utf8.decode_append_newline, Utf8.encode_append]
    exact chomp_append_newline _
  · rw [chomp_of_ne hLast, chomp_of_ne (mt Utf8.getLast?_of_encode_decode hLast)]

theorem capturedText_faithful (t : Bytes) :
    Utf8.isValid (utf8 (capturedText t)) = true ∧
    (∃ marks, (capturedText t).toList = marks.map Prod.snd ∧
      ∀ others, Utf8.Mends (chomp t) others ↔ others = marks) ∧
    utf8 (capturedText t) =
      (if Utf8.isValid (chomp t) then chomp t else Utf8.encode (Utf8.decode (chomp t))) ∧
    utf8 (capturedText t) = chomp (Utf8.encode (Utf8.decode t)) ∧
    (t.getLast? ≠ some 10 → capturedText (t ++ [10]) = capturedText t) := by
  refine ⟨Utf8.isValid_encode _, ?_, ?_, ?_, fun hLast => ?_⟩
  · obtain ⟨marks, hMends, hText⟩ := Utf8.exists_mends (chomp t)
    refine ⟨marks, by rw [capturedText, String.toList_ofList, hText], fun others => ?_⟩
    exact ⟨fun h => h.unique hMends, fun h => h ▸ hMends⟩
  · rw [utf8_capturedText]
    split
    · next hValid => exact Utf8.encode_decode hValid
    · rfl
  · rw [utf8_capturedText, chomp_encode_decode]
  · rw [capturedText, chomp_append_newline, capturedText, chomp_of_ne hLast]

/-- A sequence that the final newline cuts off: two replacement characters. -/
theorem capturedText_of_truncated :
    [0x61, 0xE2, 0x82].getLast? ≠ some (10 : UInt8) ∧
    capturedText [0x61, 0xE2, 0x82, 10] = String.ofList ['a', '\uFFFD', '\uFFFD'] := by
  have hLast : [0x61, 0xE2, 0x82].getLast? ≠ some (10 : UInt8) := by decide
  refine ⟨hLast, ((capturedText_faithful [0x61, 0xE2, 0x82]).2.2.2.2 hLast).trans ?_⟩
  decide +kernel

end Pipework
