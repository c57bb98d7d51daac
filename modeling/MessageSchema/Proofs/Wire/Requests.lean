import MessageSchema.Generator.Invocation
import MessageSchema.Proofs.Wire.Components

/-! # Requests and their bytes

A request is what is read from its record, and its record fits the shape that the reader follows; so
it is read back from its bytes (`Request.decode_encode`).  An invocation read from the bytes of a
request is therefore this request with the parameters of its text, and is answered as the request
itself is (`Invocation.decode_encode_request`).

Lengths are written as numbers of 64 bits, so the bytes of a request must be fewer than these
numbers can count. -/

namespace MessageSchema

open Record (text? int32? varint?)

/-! ### Records and what they hold -/

theorem EnumMember.ofRecord_toRecord (m : EnumMember) : ofRecord m.toRecord = m := by
  simp [ofRecord, toRecord, text?, int32?, varint?, Function.comp_def, Varint.toInt32_ofInt32]

theorem EnumType.ofRecord_toRecord (e : EnumType) : ofRecord e.toRecord = e := by
  simp [ofRecord, toRecord, text?, Function.comp_def, EnumMember.ofRecord_toRecord]

theorem Field.ofRecord_toRecord (f : Field) : ofRecord f.toRecord = f := by
  simp [ofRecord, toRecord, text?, int32?, varint?, Function.comp_def, Varint.toInt32_ofInt32]

namespace Message

theorem nestedRecords_eq (ms : List Message) :
    nestedRecords ms = Record.ofMessages 3 (ms.map toRecord) := by
  induction ms with
  | nil => rfl
  | cons m rest ih =>
      rw [nestedRecords, ih]
      rfl

theorem nestedOf_append (r r' : Record) : nestedOf (r ++ r') = nestedOf r ++ nestedOf r' := by
  induction r with
  | nil => rfl
  | cons e rest ih =>
      obtain ⟨tag, v⟩ := e
      by_cases h : tag = 3 <;> simp [nestedOf, h, ih]

theorem nestedOf_ofTexts {tag : Nat} (h : tag ≠ 3) (ss : List String) :
    nestedOf (Record.ofTexts tag ss) = [] := by
  induction ss with
  | nil => rfl
  | cons s rest ih => simpa [Record.ofTexts, nestedOf, h] using ih

theorem nestedOf_ofMessages (tag : Nat) (rs : List Record) :
    nestedOf (Record.ofMessages tag rs) = if tag = 3 then rs.map ofRecord else [] := by
  induction rs with
  | nil => simp [Record.ofMessages, nestedOf]
  | cons r rest ih => by_cases h : tag = 3 <;> simp_all [Record.ofMessages, nestedOf, ofRecord]

theorem toRecord_eq (m : Message) :
    m.toRecord = Record.ofText? 1 m.name? ++ Record.ofMessages 2 (m.fields.map Field.toRecord) ++
      Record.ofMessages 3 (m.nested.map toRecord) ++
      Record.ofMessages 4 (m.enums.map EnumType.toRecord) := by
  cases m
  rw [toRecord, nestedRecords_eq]

/-- What holds of a message whenever it holds of the messages nested in it holds of every
message. -/
theorem induction {P : Message → Prop} (step : ∀ m, (∀ n ∈ m.nested, P n) → P m) (m : Message) :
    P m := by
  apply step
  intro n hn
  exact Message.induction step n
termination_by m
decreasing_by
  have := List.sizeOf_lt_of_mem hn
  cases m
  simp only [mk.sizeOf_spec] at this ⊢
  omega

theorem ofRecord_toRecord (m : Message) : ofRecord m.toRecord = m := by
  induction m using Message.induction with
  | step m ih =>
      obtain ⟨name?, fields, nested, enums⟩ := m
      have hnested : nested.map (fun n => ofRecord n.toRecord) = nested :=
        (List.map_congr_left ih).trans (List.map_id _)
      rw [toRecord_eq, ofRecord, ofValue]
      simp [text?, nestedOf_append, nestedOf_ofTexts, nestedOf_ofMessages, Function.comp_def,
        Field.ofRecord_toRecord, EnumType.ofRecord_toRecord, hnested]

end Message

theorem File.ofRecord_toRecord (f : File) : ofRecord f.toRecord = f := by
  simp [ofRecord, toRecord, text?, Function.comp_def, Message.ofRecord_toRecord,
    EnumType.ofRecord_toRecord]

theorem Request.toRecord_eq (r : Request) :
    r.toRecord = Record.ofTexts 1 r.targets ++ Record.ofText? 2 r.parameter? ++
      Record.ofMessages 15 (r.files.map File.toRecord) :=
  rfl

theorem Request.ofRecord_toRecord (r : Request) : ofRecord r.toRecord = r := by
  simp [ofRecord, toRecord_eq, text?, Function.comp_def, File.ofRecord_toRecord]

/-! ### The records of requests fit their shapes -/

open Record (fits_ofTexts fits_ofVarints fits_ofMessages)

theorem EnumMember.fits_toRecord (m : EnumMember) : m.toRecord.Fits .enumValue := by
  rw [toRecord, Record.ofText?_eq, Record.ofInt32?_eq]
  exact (fits_ofTexts rfl _).append (fits_ofVarints rfl _)

theorem EnumType.fits_toRecord (e : EnumType) : e.toRecord.Fits .enum := by
  rw [toRecord, Record.ofText?_eq]
  refine (fits_ofTexts rfl _).append (fits_ofMessages rfl ?_)
  simpa using fun m _ => EnumMember.fits_toRecord m

theorem Field.fits_toRecord (f : Field) : f.toRecord.Fits .field := by
  rw [toRecord, Record.ofText?_eq, Record.ofText?_eq, Record.ofInt32?_eq, Record.ofInt32?_eq]
  exact (((fits_ofTexts rfl _).append (fits_ofVarints rfl _)).append
    (fits_ofVarints rfl _)).append (fits_ofTexts rfl _)

theorem Message.fits_toRecord (m : Message) : m.toRecord.Fits .message := by
  induction m using Message.induction with
  | step m ih =>
      rw [toRecord_eq, Record.ofText?_eq]
      refine (((fits_ofTexts rfl _).append (fits_ofMessages rfl ?_)).append
        (fits_ofMessages rfl ?_)).append (fits_ofMessages rfl ?_)
      · simpa using fun f _ => Field.fits_toRecord f
      · simpa using ih
      · simpa using fun e _ => EnumType.fits_toRecord e

theorem File.fits_toRecord (f : File) : f.toRecord.Fits .file := by
  rw [toRecord, Record.ofText?_eq, Record.ofText?_eq]
  refine (((fits_ofTexts rfl _).append (fits_ofTexts rfl _)).append
    (fits_ofMessages rfl ?_)).append (fits_ofMessages rfl ?_)
  · simpa using fun m _ => Message.fits_toRecord m
  · simpa using fun e _ => EnumType.fits_toRecord e

theorem Request.fits_toRecord (r : Request) : r.toRecord.Fits .request := by
  rw [toRecord_eq, Record.ofText?_eq]
  refine ((fits_ofTexts rfl _).append (fits_ofTexts rfl _)).append (fits_ofMessages rfl ?_)
  simpa using fun f _ => File.fits_toRecord f

/-! ### Requests and invocations from their bytes -/

/-- A request whose messages are nested no more deeply than the reader admits is read back from its
bytes. -/
theorem Request.decode_encode {r : Request} (hd : r.toRecord.depth ≤ Record.maxLevels)
    (hs : r.encode.length < UInt64.size) : decode r.encode = .ok r := by
  rw [decode, encode, Record.decode_encode r.fits_toRecord hd hs]
  exact congrArg Except.ok r.ofRecord_toRecord

namespace Invocation

theorem respond_eq (i : Invocation) (disallow : Bool) :
    (i.respond disallow).value = (i.request.respond
      ⟨!disallow && i.parameters.options.allowAdditionalProperties⟩).value := by
  cases disallow <;> rfl

/-- What is read from the bytes of a request is the request itself, with the parameters that its
parameter text asks for; its response is that of the request under the options among these
parameters, in which undeclared properties are forbidden if the command line forbids them.  A
parameter text with an unknown word is the only cause of failure. -/
theorem decode_encode_request {r : Request} (hd : r.toRecord.depth ≤ Record.maxLevels)
    (hs : r.encode.length < UInt64.size) :
    Request.decode r.encode = .ok r ∧
    (∀ e, Parameters.parse r.parameter = .error e → decode r.encode = .error (.parameter e)) ∧
    ∀ parameters, Parameters.parse r.parameter = .ok parameters →
      decode r.encode = .ok ⟨r, parameters⟩ ∧
      ∀ disallow, (respond ⟨r, parameters⟩ disallow).value =
        (r.respond ⟨!disallow && parameters.options.allowAdditionalProperties⟩).value := by
  have hr := Request.decode_encode hd hs
  refine ⟨hr, ?_, ?_⟩
  · intro e he
    rw [decode, hr]
    simp only [ofRequest, he]
  · intro parameters hp
    constructor
    · rw [decode, hr]
      simp only [ofRequest, hp]
    · exact fun disallow => respond_eq ..

namespace StationTypes

/-- A message with nested messages, negative numbers and components that are set but empty. -/
def station : Message :=
  { name? := some "Station"
    fields :=
      [{ name? := some "", label? := some 3, type? := some (-1), typeName? := some ".Reading" }]
    nested := [{ name? := some "Sensor", nested := [{}] }]
    enums :=
      [{ name? := some "State", members := [{ name? := some "OFF", number? := some (-1) }] }] }

/-- A request for the file of `station`. -/
def request : Request :=
  { targets := ["station.proto"]
    parameter? := some "debug, disallow_additional_properties"
    files := [{ name? := some "station.proto", package? := some "", messages := [station] }] }

theorem parse_parameter : Parameters.parse request.parameter = .ok ⟨⟨false⟩, true⟩ := rfl

/-- The parameters of `request` alone forbid undeclared properties. -/
theorem decode_encode_station :
    request.toRecord.depth ≤ Record.maxLevels ∧ request.encode.length < UInt64.size ∧
    decode request.encode = .ok ⟨request, ⟨⟨false⟩, true⟩⟩ ∧
    (respond ⟨request, ⟨⟨false⟩, true⟩⟩ false).value = (request.respond ⟨false⟩).value := by
  have hd : request.toRecord.depth ≤ Record.maxLevels := by decide
  have hs : request.encode.length < UInt64.size := by decide +kernel
  have h := (decode_encode_request hd hs).2.2 _ parse_parameter
  exact ⟨hd, hs, h.1, h.2 false⟩

end StationTypes

end Invocation

end MessageSchema
