import Handheld.WebFiles

/-!
# Decoding the names of the web interface (`WebReadSDCard.cpp`)

`urlDecode` compares the position of a `%` with the length and takes the two
characters after it for hexadecimal digits, whatever they are: `strtol` gives the
number of the leading digits, `0` where there is none.

Results:
1. `urlDecode_of_encodes`: it undoes every percent-encoding.
2. `inventsNothing_iff`: it reads a text literally, but for `+` and escapes,
   exactly when no malformed escape is in the text.
-/

namespace Handheld

open ByteString PercentCoding

/-! ## 1. Well-formed texts -/

/-- Every encoding of a text, digits in either letter case, is decoded to it. -/
theorem urlDecode_of_encodes {s e : Bytes} (h : Encodes s e) : urlDecode e = s := by
  rw [urlDecode_eq_decode, decode_of_encodes h]

/-- Two bytes from `0x80` on, a space in both ways and an escape at the end. -/
theorem urlDecode_of_encodes_cafe :
    urlDecode (ascii "caf%c3%A9+5%20%25") = ascii "caf" ++ [0xC3, 0xA9] ++ ascii " 5 %" := by
  refine urlDecode_of_encodes ?_
  refine .literal (by decide) (by decide) (.literal (by decide) (by decide)
    (.literal (by decide) (by decide) (.escape (by decide) (by decide)
      (.escape (by decide) (by decide) (.plus (.literal (by decide) (by decide)
        (.escape (by decide) (by decide) (.escape (by decide) (by decide) .nil))))))))

/-! ## 2. Malformed escapes -/

/-- The text is read from left to right with nothing replaced but `+` and complete
escapes, so that a NUL comes from a NUL. -/
def InventsNothing (s : Bytes) : Prop :=
  urlDecode s = decodeStrict s ∧ (0 ∈ urlDecode s → HasNul s)

/-- Nothing is invented exactly where every `%` that two characters follow is
followed by two hexadecimal digits. -/
theorem inventsNothing_iff (s : Bytes) : InventsNothing s ↔ WellFormed s := by
  rw [← decode_eq_strict_iff, ← urlDecode_eq_decode]
  constructor
  · exact fun h => h.1
  · intro h
    refine ⟨h, fun hnul => nul_of_decodeStrict ?_⟩
    rwa [h] at hnul

/-- A file `50%off`: the escape that is none becomes a NUL and takes two letters with it. -/
theorem not_inventsNothing :
    urlDecode (ascii "50%off") = ascii "50" ++ [0] ++ ascii "f" ∧
      decodeStrict (ascii "50%off") = ascii "50%off" ∧ ¬ ∀ s : Bytes, InventsNothing s := by
  refine ⟨by decide, by decide, fun h => ?_⟩
  exact absurd (h (ascii "50%off")).1 (by decide)

end Handheld
