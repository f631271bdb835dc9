import CliImage.CliHeader
import CliImage.Proofs.Reader

/-! The CLI header reads back as what it was written from. -/

namespace CliImage.CliHeader

open Reader (ReadsBack)

variable {data : Bytes} {header : CliHeader}

/-- What a header that is accepted says of itself. -/
structure Formed (header : CliHeader) : Prop where
  size : header.size.toNat = encodedSize
  metadata : ¬ (header.metadata.rva = 0 ∨ header.metadata.size = 0)

lemma formed_of_read (h : read data = .ok header) : header.Formed := by
  obtain ⟨next, h⟩ := Reader.run_eq_ok.mp h
  simp only [reader, Reader.bind_eq_ok, Reader.unless_fail_eq_ok] at h
  obtain ⟨_, _, -, -, size, _, -, hsize, _, _, -, _, _, -, metadata, _, -, hmetadata, _, _, -, _, _,
    -, _, _, -, _, _, -, _, _, -, _, _, -, _, _, -, _, _, -, h⟩ := h
  obtain ⟨rfl, -⟩ := Reader.pure_eq_ok.mp h
  exact ⟨by simpa using hsize, hmetadata⟩

@[simp] lemma size_encodeSpan (span : Span) : (encodeSpan span).size = 8 := by
  simp [encodeSpan]

@[simp] lemma size_encode (header : CliHeader) : header.encode.size = 72 := by
  simp [encode]

lemma readsBack_span (span : Span) : ReadsBack readSpan (encodeSpan span) span := by
  have h : ReadsBack readSpan
      (Bytes.ofUInt32 span.rva ++ (Bytes.ofUInt32 span.size ++ #[])) span :=
    .bind (.u32 _) <| .bind (.u32 _) <| .pure _
  rwa [Array.append_empty] at h

lemma encode_eq (header : CliHeader) : header.encode =
    Bytes.ofUInt32 header.size ++ (Bytes.ofUInt16 header.majorRuntime ++
      (Bytes.ofUInt16 header.minorRuntime ++ (encodeSpan header.metadata ++
        (Bytes.ofUInt32 header.flags ++ (Bytes.ofUInt32 header.entryPoint.value ++
          (encodeSpan header.resources ++ (encodeSpan header.strongName ++
            (encodeSpan header.codeManager ++ (encodeSpan header.vtableFixups ++
              (encodeSpan header.exportJumps ++ (encodeSpan header.native ++ #[]))))))))))) := by
  simp only [encode, Array.append_assoc, Array.append_empty]

theorem read_encode (hformed : header.Formed) (back : Bytes) :
    read (header.encode ++ back) = .ok header := by
  have hstands := (Bytes.standsAt_self header.encode).append_right back
  have hsize : ¬ header.size.toNat ≠ encodedSize := not_not.mpr hformed.size
  refine Reader.run_eq_ok.mpr ⟨0 + header.encode.size, ?_⟩
  rw [reader, Reader.bind_apply, Reader.data_apply]
  simp only
  rw [if_neg (by rw [Array.size_append, size_encode, encodedSize]; omega)]
  rw [encode_eq] at hstands ⊢
  refine (ReadsBack.bind (.u32 _) <| .unless_fail hsize <| .bind (.u16 _) <|
    .bind (.u16 _) <| .bind (readsBack_span _) <| .unless_fail hformed.metadata <|
    .bind (.u32 _) <| .bind ((ReadsBack.u32 _).map (g := Token.mk)) <| .bind (readsBack_span _) <|
    .bind (readsBack_span _) <| .bind (readsBack_span _) <| .bind (readsBack_span _) <|
    .bind (readsBack_span _) <| .bind (readsBack_span header.native) (.pure header)) hstands

end CliImage.CliHeader
