/-!
# Bytes

Documents arrive and leave as bytes.  Texts are bytes in UTF-8, so that decoding gives back every
text (`decodeText?_encodeText`).  Lines are separated by the byte of a line feed, which never occurs
inside the encoding of another character; `cutLine?_eq_some_iff` says where a line ends.
-/

namespace Exposition

/-- The encoding of a text. -/
def encodeText (s : String) : List UInt8 := s.toUTF8.data.toList

/-- The text that bytes encode, if they are valid UTF-8. -/
def decodeText? (bytes : List UInt8) : Option String := String.fromUTF8? ⟨bytes.toArray⟩

def lineFeed : UInt8 := 10

/-- Cuts bytes at the first line feed, which belongs to neither piece. -/
def cutLine? : List UInt8 → Option (List UInt8 × List UInt8)
  | [] => none
  | b :: rest =>
    if b = lineFeed then some ([], rest)
    else (cutLine? rest).map fun (line, rest) => (b :: line, rest)

theorem decodeText?_encodeText (s : String) : decodeText? (encodeText s) = some s := by
  have key : (⟨(encodeText s).toArray⟩ : ByteArray) = s.toUTF8 := rfl
  rw [decodeText?, key, String.fromUTF8?, String.toUTF8_eq_toByteArray, dif_pos s.isValidUTF8]
  rfl

/-- A line is cut off in front of the first line feed. -/
theorem cutLine?_eq_some_iff {bytes line rest : List UInt8} :
    cutLine? bytes = some (line, rest) ↔ bytes = line ++ lineFeed :: rest ∧ lineFeed ∉ line := by
  induction bytes generalizing line with
  | nil => simp [cutLine?]
  | cons b bytes ih =>
    rw [cutLine?]
    split
    · next h =>
      subst h
      constructor
      · intro hc
        cases hc
        exact ⟨rfl, List.not_mem_nil⟩
      · rintro ⟨hb, hl⟩
        cases line with
        | nil => cases hb; rfl
        | cons c line => cases hb; exact absurd List.mem_cons_self hl
    · next h =>
      rw [Option.map_eq_some_iff]
      constructor
      · rintro ⟨⟨l, r⟩, hc, he⟩
        cases he
        obtain ⟨rfl, hl⟩ := ih.1 hc
        exact ⟨rfl, fun hm => (List.mem_cons.1 hm).elim (fun e => h e.symm) hl⟩
      · rintro ⟨hb, hl⟩
        cases line with
        | nil => cases hb; exact absurd rfl h
        | cons c line =>
          cases hb
          exact ⟨(line, rest), ih.2 ⟨rfl, fun hm => hl (List.mem_cons_of_mem _ hm)⟩, rfl⟩

theorem length_of_cutLine? {bytes line rest : List UInt8} (h : cutLine? bytes = some (line, rest)) :
    bytes.length = line.length + 1 + rest.length := by
  rw [(cutLine?_eq_some_iff.1 h).1, List.length_append, List.length_cons]
  omega

end Exposition
