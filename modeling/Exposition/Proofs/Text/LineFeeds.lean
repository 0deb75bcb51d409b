import Exposition.Text.Bytes
import Exposition.Text.Escape

/-!
# Line feeds in texts and in their bytes

The byte of a line feed occurs in the encoding of a text exactly if the text has a line feed
(`lineFeed_mem_encodeText`), and encodings begin with one another only as their texts do
(`toList_prefix_of_encodeText_prefix`).  Escaped texts have no line feeds
(`lineFeed_not_mem_escape`).
-/

namespace Exposition

/-! ### Encodings -/

@[simp]
theorem encodeText_empty : encodeText "" = [] := rfl

theorem encodeText_append (s t : String) :
    encodeText (s ++ t) = encodeText s ++ encodeText t := by
  simp only [encodeText, String.toUTF8_eq_toByteArray, String.toByteArray_append,
    ByteArray.data_append, Array.toList_append]

theorem toUTF8_eq_utf8Encode (s : String) : s.toUTF8 = s.toList.utf8Encode := by
  rw [String.toUTF8_eq_toByteArray, ← String.toByteArray_ofList, String.ofList_toList]

/-- The encoding of a text is made of the encodings of its characters. -/
theorem encodeText_eq_flatMap (s : String) :
    encodeText s = s.toList.flatMap String.utf8EncodeChar := by
  rw [encodeText, toUTF8_eq_utf8Encode, List.utf8Encode, List.toList_data_toByteArray]

/-- Bytes that are decoded encode what they are decoded to. -/
theorem encodeText_of_decodeText? {bytes : List UInt8} {text : String}
    (h : decodeText? bytes = some text) : encodeText text = bytes := by
  unfold decodeText? String.fromUTF8? at h
  split at h
  · cases h
    rfl
  · cases h

/-- A text whose encoding begins with that of another one begins with the other one. -/
theorem toList_prefix_of_encodeText_prefix {s t : String} (h : encodeText s <+: encodeText t) :
    s.toList <+: t.toList := by
  obtain ⟨more, h⟩ := h
  refine List.isPrefix_of_utf8Encode_append_eq_utf8Encode ⟨more.toArray⟩ ?_
  rw [← toUTF8_eq_utf8Encode, ← toUTF8_eq_utf8Encode]
  refine ByteArray.ext (Array.toList_inj.1 ?_)
  rw [ByteArray.data_append, Array.toList_append]
  exact h

/-- Only a line feed has the byte of a line feed in its encoding: the bytes of longer encodings
are all above those of ASCII. -/
theorem lineFeed_mem_utf8EncodeChar {c : Char} :
    lineFeed ∈ String.utf8EncodeChar c ↔ c = '\n' := by
  constructor
  · intro h
    have hv : c.val.toNat < 2 ^ 32 := c.val.toNat_lt
    have hten : ∀ n : Nat, lineFeed = UInt8.ofNat n → n % 256 = 10 := by
      intro n hn
      have := congrArg UInt8.toNat hn
      rw [UInt8.toNat_ofNat'] at this
      exact this.symm
    unfold String.utf8EncodeChar at h
    dsimp only at h
    split at h
    · next hc =>
      have := hten _ (List.mem_singleton.1 h)
      have hval : c.val.toNat = 10 := by omega
      exact Char.ext (UInt32.toNat_inj.1 hval)
    · exfalso
      split at h
      · simp only [List.mem_cons, List.not_mem_nil, or_false] at h
        rcases h with h | h <;> have hmod := hten _ h <;> omega
      · split at h <;> simp only [List.mem_cons, List.not_mem_nil, or_false] at h
        · rcases h with h | h | h <;> have hmod := hten _ h <;> omega
        · rcases h with h | h | h | h <;> have hmod := hten _ h <;> omega
  · rintro rfl
    decide

theorem lineFeed_mem_encodeText {s : String} : lineFeed ∈ encodeText s ↔ '\n' ∈ s.toList := by
  rw [encodeText_eq_flatMap, List.mem_flatMap]
  constructor
  · rintro ⟨c, hc, h⟩
    rw [← lineFeed_mem_utf8EncodeChar.1 h]
    exact hc
  · exact fun h => ⟨'\n', h, lineFeed_mem_utf8EncodeChar.2 rfl⟩

/-! ### Escaped texts -/

theorem lineFeed_not_mem_escape (quotes : Bool) (s : List Char) : '\n' ∉ escape quotes s := by
  intro h
  obtain ⟨c, -, hc⟩ := List.mem_flatMap.1 h
  unfold escapeChar at hc
  split at hc
  · exact absurd hc (by decide)
  · split at hc
    · exact absurd hc (by decide)
    · next hn =>
      split at hc
      · exact absurd hc (by decide)
      · exact hn (List.mem_singleton.1 hc).symm

end Exposition
