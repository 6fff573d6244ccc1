import YasinCore.Library.Base64
import YasinCore.Library.Json

namespace YasinCore.Library

theorem toNat_ofNat_of_valid {n : Nat} (h : n.isValidChar) : (Char.ofNat n).toNat = n := by
  unfold Char.ofNat
  rw [dif_pos h]
  rfl

theorem CodePoint.ofChar_of_toChar? {c : CodePoint} {char : Char} (h : c.toChar? = some char) :
    CodePoint.ofChar char = c := by
  unfold CodePoint.toChar? at h
  split at h
  · rename_i hvalid
    obtain rfl := Option.some.inj h
    refine Fin.ext ?_
    exact toNat_ofNat_of_valid hvalid
  · cases h

namespace Utf8

-- The characters, unless there is a surrogate among the code points.
def chars? (s : Str) : Option (List Char) := s.mapM CodePoint.toChar?

def encode (s : Str) : Option Bytes := (chars? s).map fun chars => chars.flatMap String.utf8EncodeChar

def decode (bytes : Bytes) : Option Str := (String.fromUTF8? bytes.toByteArray).map Str.ofString

theorem chars?_map (chars : List Char) : chars? (chars.map CodePoint.ofChar) = some chars := by
  unfold chars?
  induction chars with
  | nil => rfl
  | cons c chars ih => simp [CodePoint.toChar?_ofChar, ih]

theorem map_of_chars? {s : Str} {chars : List Char} (h : chars? s = some chars) :
    chars.map CodePoint.ofChar = s := by
  unfold chars? at h
  induction s generalizing chars with
  | nil =>
      obtain rfl := Option.some.inj h
      rfl
  | cons c s ih =>
      rw [List.mapM_cons, Option.bind_eq_bind, Option.bind_eq_some_iff] at h
      obtain ⟨char, hc, h⟩ := h
      rw [Option.bind_eq_bind, Option.bind_eq_some_iff] at h
      obtain ⟨rest, hs, h⟩ := h
      obtain rfl := Option.some.inj h
      rw [List.map_cons, CodePoint.ofChar_of_toChar? hc, ih hs]

-- Valid bytes are the encoding of some characters, and these are what they are decoded to.
theorem decode_eq_some_iff {bytes : Bytes} {s : Str} : decode bytes = some s ↔
    ∃ chars : List Char, bytes = chars.flatMap String.utf8EncodeChar ∧ s = chars.map CodePoint.ofChar := by
  unfold decode String.fromUTF8?
  constructor
  · intro h
    rw [Option.map_eq_some_iff] at h
    obtain ⟨text, htext, rfl⟩ := h
    split at htext
    · rename_i hvalid
      obtain rfl := Option.some.inj htext
      obtain ⟨chars, hchars⟩ := hvalid
      refine ⟨chars, List.toByteArray_inj.mp hchars, ?_⟩
      have hlist : String.fromUTF8 bytes.toByteArray ⟨chars, hchars⟩ = String.ofList chars :=
        String.toByteArray_inj.mp hchars
      rw [hlist, Str.ofString, String.toList_ofList]
    · cases htext
  · rintro ⟨chars, rfl, rfl⟩
    have hvalid : (chars.flatMap String.utf8EncodeChar).toByteArray.IsValidUTF8 := ⟨chars, rfl⟩
    have hlist : String.fromUTF8 _ hvalid = String.ofList chars := rfl
    rw [dif_pos hvalid, hlist, Option.map_some, Str.ofString, String.toList_ofList]

-- The two are inverse to each other where they are defined.
theorem encode_eq_some_iff {bytes : Bytes} {s : Str} : encode s = some bytes ↔ decode bytes = some s := by
  unfold encode
  rw [decode_eq_some_iff, Option.map_eq_some_iff]
  constructor
  · rintro ⟨chars, hchars, rfl⟩
    exact ⟨chars, rfl, (map_of_chars? hchars).symm⟩
  · rintro ⟨chars, rfl, rfl⟩
    exact ⟨chars, chars?_map chars, rfl⟩

-- Bytes in ASCII are characters on their own.
theorem decode_ascii {bytes : Bytes} (h : ∀ c ∈ bytes, c.toNat < 128) :
    decode bytes = some (bytes.map fun c => CodePoint.ofChar (Char.ofNat c.toNat)) := by
  rw [decode_eq_some_iff]
  refine ⟨bytes.map fun c => Char.ofNat c.toNat, ?_, by rw [List.map_map]; rfl⟩
  have hone : ∀ c ∈ bytes, String.utf8EncodeChar (Char.ofNat c.toNat) = [c] := by
    intro c hc
    have hsmall := h c hc
    have hvalid : c.toNat.isValidChar := .inl (by omega)
    have hval : (Char.ofNat c.toNat).val.toNat = c.toNat := toNat_ofNat_of_valid hvalid
    unfold String.utf8EncodeChar
    rw [hval]
    dsimp only
    rw [if_pos (by omega), UInt8.ofNat_toNat]
  rw [List.flatMap_map, List.flatMap_congr hone, List.flatMap_singleton']

end Utf8

end YasinCore.Library
