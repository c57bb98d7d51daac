import MessageSchema.Generator.Response
import MessageSchema.Proofs.Wire.Components

/-! # Responses and their bytes

A response is what is read from its record, its record fits the shape that the reader follows, and
no message stands in it more than one level deep.  So every response is read back from its bytes
(`Response.decode_encode`), if their number can be written in 64 bits. -/

namespace MessageSchema

open Record (text? varint? fits_ofTexts fits_ofVarints fits_ofMessages)

theorem ResponseFile.ofRecord_toRecord (f : ResponseFile) : ofRecord f.toRecord = f := by
  simp [ofRecord, toRecord, text?]

theorem ResponseFile.fits_toRecord (f : ResponseFile) : f.toRecord.Fits .responseFile := by
  rw [toRecord, Record.ofText?_eq, Record.ofText?_eq]
  exact (fits_ofTexts rfl _).append (fits_ofTexts rfl _)

theorem ResponseFile.depth_toRecord (f : ResponseFile) : f.toRecord.depth = 0 := by
  rw [toRecord, Record.ofText?_eq, Record.ofText?_eq]
  apply Nat.le_zero.mp
  rw [Record.depth_append_le_iff, Record.depth_ofTexts, Record.depth_ofTexts]
  exact ⟨Nat.le_refl 0, Nat.le_refl 0⟩

namespace Response

theorem ofRecord_toRecord (r : Response) : ofRecord r.toRecord = r := by
  simp [ofRecord, toRecord, text?, varint?, Function.comp_def, ResponseFile.ofRecord_toRecord]

theorem fits_toRecord (r : Response) : r.toRecord.Fits .response := by
  rw [toRecord, Record.ofText?_eq, Record.ofVarint?_eq]
  refine ((fits_ofTexts rfl _).append (fits_ofVarints rfl _)).append (fits_ofMessages rfl ?_)
  simpa using fun f _ => ResponseFile.fits_toRecord f

theorem depth_toRecord_le (r : Response) : r.toRecord.depth ≤ 1 := by
  rw [toRecord, Record.ofText?_eq, Record.ofVarint?_eq]
  rw [Record.depth_append_le_iff, Record.depth_append_le_iff, Record.depth_ofTexts,
    Record.depth_ofVarints]
  refine ⟨⟨Nat.zero_le 1, Nat.zero_le 1⟩, Record.depth_ofMessages_le ?_⟩
  simpa using fun f _ => ResponseFile.depth_toRecord f

/-- Every response is read back from its bytes. -/
theorem decode_encode {r : Response} (hs : r.encode.length < UInt64.size) :
    decode r.encode = .ok r := by
  have hd : r.toRecord.depth ≤ Record.maxLevels := by
    have := r.depth_toRecord_le
    simp only [Record.maxLevels]
    omega
  rw [decode, encode, Record.decode_encode r.fits_toRecord hd hs]
  exact congrArg Except.ok r.ofRecord_toRecord

end Response

end MessageSchema
