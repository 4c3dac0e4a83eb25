/-
  ArtifactCourier.Proofs.Gzip
  ──────────────────────────────────────
  **A gzip member decompresses to what was compressed.**

  A member is a header without optional fields, a compressed text and a trailer.  The header
  has a fixed length, the compressed text says itself where it ends
  (`Deflate.decode?_encode`), and the trailer is the one of the text.
-/
import ArtifactCourier.Gzip
import ArtifactCourier.Proofs.Deflate.RoundTrip

namespace ArtifactCourier.Gzip

/-- Behind the header that is written stands the rest of the member. -/
theorem skipHeader?_header (rest : ByteArray) : skipHeader? (header ++ rest) = some rest := by
  have size : header.size = 10 := by decide
  have bytes : header.toList = [0x1F, 0x8B, 0x08, 0, 0, 0, 0, 0, 0, 0xFF] :=
    toList_toByteArray _
  have first : (header ++ rest).extract 0 10 = header :=
    ByteArray.extract_append_eq_left size.symm
  have behind : (header ++ rest).extract 10 (header ++ rest).size = rest := by
    rw [← size]
    exact ByteArray.extract_append_eq_right rfl ByteArray.size_append
  simp only [skipHeader?, first, bytes, behind, if_true]

/-- **A member decompresses to its text.** -/
theorem decode?_encode (data : ByteArray) : decode? (encode data) = some data := by
  have member : encode data = header ++ (Deflate.encode data ++ trailer data) :=
    ByteArray.append_assoc
  have same : sameBytes (trailer data) (trailer data) = true := sameBytes_iff.2 rfl
  rw [decode?, member, skipHeader?_header]
  simp [Deflate.decode?_encode, same]

end ArtifactCourier.Gzip
