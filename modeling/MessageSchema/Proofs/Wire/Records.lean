import MessageSchema.Wire.Reader

/-! # Reading undoes writing

A record can be read back from its bytes if its shape knows every tag and form in it
(`Record.Fits`), if its messages are not nested more deeply than the reader admits
(`Record.depth`), and if its bytes are so few that their number can be written.

Main statement: `Record.decode_encode`.  It rests on one lemma for each reader, which says what the
reader finds in front of any bytes that may follow (`Reader.Reads`). -/

namespace MessageSchema

/-! ### Texts and numbers -/

theorem ofUtf8?_utf8 (s : String) : ofUtf8? (utf8 s) = some s := by
  have h : (⟨(utf8 s).toArray⟩ : ByteArray) = s.toByteArray := by
    simp [utf8, String.toUTF8]
  rw [ofUtf8?, h, String.fromUTF8?, dif_pos s.isValidUTF8]
  rfl

theorem Varint.toInt32_ofInt32 (n : Int32) : toInt32 (ofInt32 n) = n := by
  apply Int32.toBitVec_inj.mp
  show (n.toBitVec.signExtend 64).setWidth 32 = n.toBitVec
  ext i hi
  rw [BitVec.getElem_setWidth, BitVec.getLsbD_signExtend]
  simp [hi]
  omega

/-! ### Records of a shape -/

mutual

/-- The value has the form of the slot. -/
def WireValue.Fits : Slot → WireValue → Prop
  | .varint, .varint _ | .varints, .varint _ | .text, .text _ | .bytes, .bytes _ => True
  | .fixed64, .fixed64 body => body.length = 8
  | .message shape, .message entries => Record.Fits shape entries
  | _, _ => False

/-- The shape knows every tag in the record, and each value has the form of its component. -/
def Record.Fits (shape : Shape) : Record → Prop
  | [] => True
  | (tag, v) :: rest =>
      (∃ c, shape.component? tag = some c ∧ v.Fits c.slot) ∧ Record.Fits shape rest

end

mutual

/-- How many messages are open at the innermost point of the value. -/
def WireValue.depth : WireValue → Nat
  | .message entries => Record.depth entries + 1
  | _ => 0

/-- How deeply messages are nested in the record. -/
def Record.depth : Record → Nat
  | [] => 0
  | (_, v) :: rest => max v.depth (Record.depth rest)

end

/-- How the end of the value is found. -/
def WireValue.wireType : WireValue → WireType
  | .varint _ => .varint
  | .fixed64 _ => .fixed64
  | .text _ | .bytes _ | .message _ => .delimited

/-- The bytes of the value without its key. -/
def WireValue.payload : WireValue → List UInt8
  | .varint n => Varint.encode n.toNat
  | .fixed64 body => body
  | .text s => Record.delimited (utf8 s)
  | .bytes body => Record.delimited body
  | .message entries => Record.delimited (Record.encode entries)

theorem Record.encodeValue_eq (tag : Nat) (v : WireValue) :
    encodeValue tag v = key tag v.wireType ++ v.payload := by
  cases v <;> rw [encodeValue] <;> rfl

theorem Record.length_le_delimited (body : List UInt8) :
    body.length ≤ (delimited body).length := by
  simp [delimited]

theorem Shape.tag_of_mem_components (shape : Shape) :
    ∀ c ∈ shape.components, 0 < c.tag ∧ c.tag ≤ 999 := by
  cases shape <;> decide

theorem Shape.tag_of_component? {shape : Shape} {tag : Nat} {c : Component}
    (h : shape.component? tag = some c) : 0 < tag ∧ tag ≤ 999 := by
  have hbounds := shape.tag_of_mem_components c (List.mem_of_find?_eq_some h)
  obtain rfl : c.tag = tag := by simpa using List.find?_some h
  exact hbounds

namespace Reader

/-- The reader finds `a` and leaves the bytes `rest`. -/
def Reads {ε α : Type} {p : List UInt8 → Prop} (x : Except ε (α × { rest // p rest })) (a : α)
    (rest : List UInt8) : Prop :=
  ∃ h, x = .ok (a, ⟨rest, h⟩)

@[simp] theorem outside_ok {α : Type} (a : α) :
    outside (.ok a : Except WireFault α) = .ok a := rfl

@[simp] theorem inside_ok {α : Type} (shape : Shape) (c : Component) (a : α) :
    inside shape c (.ok a) = .ok a := rfl

variable {n tag : Nat} {w : WireType} {rest body : List UInt8}

/-! ### Parts of values -/

theorem reads_varint (h : n < UInt64.size) (rest : List UInt8) :
    Reads (varint (Varint.encode n ++ rest)) n rest := by
  have hdecode := Varint.decode_encode h rest
  refine ⟨Varint.length_lt_of_decode hdecode, ?_⟩
  rw [varint]
  split
  next hnone =>
    rw [hdecode] at hnone
    cases hnone
  next m left hsome =>
    rw [hdecode] at hsome
    cases hsome
    rfl

theorem key_key (hpos : 0 < tag) (hlt : tag ≤ 999) (w : WireType) (rest : List UInt8) :
    ∃ h, key (Record.key tag w ++ rest) = .ok (tag, w, ⟨rest, h⟩) := by
  have hw : w.number < 8 := by cases w <;> decide
  have hn : tag * 8 + w.number < UInt32.size := by
    simp only [UInt32.size]
    omega
  obtain ⟨h, hv⟩ := reads_varint (n := tag * 8 + w.number) (by simp [UInt64.size]; omega) rest
  have hmod : (tag * 8 + w.number) % 8 = w.number := by omega
  have hdiv : (tag * 8 + w.number) / 8 = tag := by omega
  refine ⟨h, ?_⟩
  show key (Varint.encode (tag * 8 + w.number) ++ rest) = _
  rw [key, hv]
  simp only [bind, Except.bind, if_neg (Nat.not_le.mpr hn), hmod, hdiv,
    WireType.ofNumber?_number, if_neg (Nat.pos_iff_ne_zero.mp hpos)]
  rfl

theorem reads_size (h : body.length < UInt64.size) (rest : List UInt8) :
    Reads (size (Record.delimited body ++ rest)) body.length (body ++ rest) := by
  rw [Record.delimited, List.append_assoc]
  obtain ⟨hlt, hv⟩ := reads_varint h (body ++ rest)
  refine ⟨hlt, ?_⟩
  rw [size, hv]
  simp only [bind, Except.bind]
  rw [if_neg (by simp)]
  rfl

theorem reads_delimited (h : body.length < UInt64.size) (rest : List UInt8) :
    Reads (delimited (Record.delimited body ++ rest)) body rest := by
  obtain ⟨hlt, hsize⟩ := reads_size h rest
  refine ⟨by simp, ?_⟩
  rw [delimited, hsize]
  simp [bind, Except.bind, pure, Except.pure]

theorem reads_raw (body rest : List UInt8) : Reads (raw body.length (body ++ rest)) body rest := by
  refine ⟨by simp, ?_⟩
  rw [raw, if_neg (by simp)]
  simp [pure, Except.pure]

/-! ### Values -/

theorem reads_leaf {slot : Slot} {v : WireValue} (hf : v.Fits slot)
    (hm : ∀ shape, slot ≠ .message shape) (hs : v.payload.length < UInt64.size)
    (rest : List UInt8) : Reads (leaf slot v.wireType (v.payload ++ rest)) [v] rest := by
  cases v with
  | varint n =>
      obtain ⟨h, hv⟩ := reads_varint n.toNat_lt rest
      refine ⟨Nat.le_of_lt h, ?_⟩
      have hleaf : slot = .varint ∨ slot = .varints := by
        cases slot <;> simp [WireValue.Fits] at hf ⊢
      rcases hleaf with rfl | rfl <;>
        simp [leaf, WireValue.wireType, WireValue.payload, hv, expect, bind, Except.bind, pure,
          Except.pure]
  | fixed64 body =>
      obtain rfl : slot = .fixed64 := by cases slot <;> simp [WireValue.Fits] at hf ⊢
      obtain ⟨h, hv⟩ := reads_raw body rest
      refine ⟨h, ?_⟩
      have hlen : body.length = 8 := hf
      rw [hlen] at hv
      simp [leaf, WireValue.wireType, WireValue.payload, hv, expect, bind, Except.bind, pure,
        Except.pure]
  | text s =>
      obtain rfl : slot = .text := by cases slot <;> simp [WireValue.Fits] at hf ⊢
      have hlt := Nat.lt_of_le_of_lt (Record.length_le_delimited (utf8 s)) hs
      obtain ⟨h, hv⟩ := reads_delimited hlt rest
      refine ⟨h, ?_⟩
      simp [leaf, WireValue.wireType, WireValue.payload, hv, expect, bind, Except.bind, pure,
        Except.pure, ofUtf8?_utf8]
  | bytes body =>
      obtain rfl : slot = .bytes := by cases slot <;> simp [WireValue.Fits] at hf ⊢
      have hlt := Nat.lt_of_le_of_lt (Record.length_le_delimited body) hs
      obtain ⟨h, hv⟩ := reads_delimited hlt rest
      refine ⟨h, ?_⟩
      simp [leaf, WireValue.wireType, WireValue.payload, hv, expect, bind, Except.bind, pure,
        Except.pure]
  | message entries =>
      cases slot with
      | message shape => exact absurd rfl (hm shape)
      | varint | varints | fixed64 | text | bytes => simp [WireValue.Fits] at hf

theorem reads_message {levels : Nat} {entries : Record}
    {read : (levels limit : Nat) →
      (body : Shorter (Record.delimited (Record.encode entries) ++ rest)) →
      Except DecodeError (Record × NoLonger body.1)}
    (hs : (Record.encode entries).length < UInt64.size)
    (hread : ∀ h, Reads (read levels rest.length ⟨Record.encode entries ++ rest, h⟩) entries rest) :
    Reads (message (levels + 1) .delimited
      (Record.delimited (Record.encode entries) ++ rest) read) [.message entries] rest := by
  obtain ⟨h, hsize⟩ := reads_size hs rest
  obtain ⟨hle, hentries⟩ := hread h
  refine ⟨by simp, ?_⟩
  simp [message, hsize, hentries, expect, bind, Except.bind, pure, Except.pure]

/-! ### Records -/

/-- Read the values of a component. -/
def value (levels : Nat) (slot : Slot) (w : WireType) (bytes : List UInt8) :
    Except DecodeError (List WireValue × NoLonger bytes) :=
  match slot with
  | .message inner =>
      message levels w bytes fun levels limit body => record inner levels limit body
  | slot => outside (leaf slot w bytes)

/-- The record of a shape can be read back within a number of levels. -/
def ReadsBack (levels : Nat) : Prop :=
  ∀ (shape : Shape) (r : Record) (rest : List UInt8), r.Fits shape → r.depth ≤ levels →
    (Record.encode r).length < UInt64.size →
    Reads (record shape levels rest.length (Record.encode r ++ rest)) r rest

theorem reads_value {levels : Nat} {slot : Slot} {v : WireValue} (hf : v.Fits slot)
    (hd : v.depth ≤ levels) (hs : v.payload.length < UInt64.size)
    (hinner : ∀ below < levels, ReadsBack below) (rest : List UInt8) :
    Reads (value levels slot v.wireType (v.payload ++ rest)) [v] rest := by
  cases slot with
  | message inner =>
      cases v with
      | message entries =>
          cases levels with
          | zero => simp [WireValue.depth] at hd
          | succ below =>
              have hlen := Record.length_le_delimited (Record.encode entries)
              have hsize := Nat.lt_of_le_of_lt hlen hs
              have hdepth : Record.depth entries ≤ below := by simpa [WireValue.depth] using hd
              have hread := hinner below (Nat.lt_succ_self _) inner entries rest hf hdepth hsize
              rw [value]
              apply reads_message hsize
              intro _
              exact hread
      | varint | fixed64 | text | bytes => simp [WireValue.Fits] at hf
  | varint | varints | fixed64 | text | bytes =>
      obtain ⟨h, hleaf⟩ := reads_leaf hf (by simp) hs rest
      exact ⟨h, congrArg outside hleaf⟩

/-- A record is read value by value. -/
theorem reads_record_cons {shape : Shape} {levels : Nat} {c : Component} {v : WireValue}
    {entries : Record} {after : List UInt8} (hc : shape.component? tag = some c)
    (hv : Reads (value levels c.slot v.wireType (v.payload ++ after)) [v] after)
    (hrest : Reads (record shape levels rest.length after) entries rest) :
    Reads (record shape levels rest.length (Record.encodeValue tag v ++ after))
      ((tag, v) :: entries) rest := by
  obtain ⟨hpos, hle⟩ := Shape.tag_of_component? hc
  obtain ⟨hk, hkey⟩ := key_key hpos hle v.wireType (v.payload ++ after)
  obtain ⟨ha, hvalue⟩ := hv
  obtain ⟨hr, hentries⟩ := hrest
  rw [Record.encodeValue_eq, List.append_assoc]
  have hlong : ¬ (Record.key tag v.wireType ++ (v.payload ++ after)).length ≤ rest.length := by
    omega
  refine ⟨by omega, ?_⟩
  rw [record, if_neg hlong, hkey]
  simp only [outside_ok, bind, Except.bind, hc]
  cases hslot : c.slot <;> simp only [hslot, value] at hvalue <;>
    simp only [hvalue, inside_ok, hentries] <;> rfl

theorem readsBack (levels : Nat) : ReadsBack levels := by
  induction levels using Nat.strongRecOn with
  | _ levels ih =>
      intro shape r rest hf hd hs
      induction r with
      | nil =>
          refine ⟨Nat.le_refl _, ?_⟩
          rw [record, if_pos (by simp [Record.encode])]
          rfl
      | cons e entries ihr =>
          obtain ⟨tag, v⟩ := e
          obtain ⟨⟨c, hc, hv⟩, hentries⟩ := hf
          have hdepth : max v.depth (Record.depth entries) ≤ levels := hd
          rw [Record.encode, Record.encodeValue_eq] at hs
          simp only [List.length_append] at hs
          rw [Record.encode, List.append_assoc]
          apply reads_record_cons hc
          · exact reads_value hv (by omega) (by omega) ih _
          · exact ihr hentries (by omega) (by omega)

end Reader

/-- A record of a shape is what its bytes hold as a whole. -/
theorem Record.decode_encode {shape : Shape} {r : Record} (hf : r.Fits shape)
    (hd : r.depth ≤ maxLevels) (hs : (encode r).length < UInt64.size) :
    decode shape (encode r) = .ok r := by
  have hr := Reader.readsBack maxLevels shape r [] hf hd hs
  rw [List.append_nil] at hr
  obtain ⟨h, hr⟩ := hr
  exact congrArg (Prod.fst <$> ·) hr

end MessageSchema
