import FlowCorpus.Digest.Sha256

/-!
# Bytes of texts

The bytes that are digested tell texts apart, and those of two texts in a row are in a row.
-/

set_option autoImplicit false

namespace FlowCorpus.Digest

theorem utf8_injective {s t : String} (same : utf8 s = utf8 t) : s = t := by
  have bytes : s.toUTF8.data = t.toUTF8.data := Array.toList_inj.mp same
  exact String.toByteArray_inj.mp (ByteArray.ext bytes)

theorem utf8_append (s t : String) : utf8 (s ++ t) = utf8 s ++ utf8 t := by
  simp [utf8]

theorem utf8_null : utf8 "\x00" = [0] := rfl

end FlowCorpus.Digest
