import Mathlib.Tactic
import Aiokpl.Lib.Cursor
import Aiokpl.Lib.Dict

/-!
# The aggregation wire format (`aiokpl/aggregation.py`)

The hand-rolled protobuf codec: varints, length-delimited fields, and the four
nested levels of an aggregated blob (envelope, `AggregatedRecord`, `Record`,
`Tag`), each with its own field loop.  The builder's two key tables are kept by
one `intern`.  MD5 is a parameter: a function to 16 bytes.
-/

namespace Aiokpl

open Lib

abbrev Bytes := List UInt8

namespace Aggregation

open Lib.Cursor

/-! ## Records -/

structure Tag where
  key : String
  value : Option String := none
  deriving DecidableEq, Repr

structure UserRecord where
  partitionKey : String
  data : Bytes
  explicitHashKey : Option String := none
  tags : List Tag := []
  deriving DecidableEq, Repr

structure DecodedRecord where
  partitionKey : String
  explicitHashKey : Option String
  data : Bytes
  tags : List Tag
  deriving DecidableEq, Repr

/-- What the codec raises.  `UnicodeDecodeError` is a `ValueError` whose text is
    the interpreter's own; `IndexError` is what an unguarded read past the end would raise. -/
inductive Error
  | valueError (message : String)
  | unicodeDecodeError
  | indexError
  deriving DecidableEq, Repr

/-- `hashlib.md5(...).digest()`. -/
abbrev Digest := { bs : Bytes // bs.length = 16 }

def Digest.zero : Digest := ⟨List.replicate 16 0, rfl⟩

def magic : Bytes := [0xf3, 0x89, 0x9a, 0xc2]

def md5Len : Nat := 16

def wireVarint : Nat := 0

def wireLengthDelimited : Nat := 2

/-- `s.encode("utf-8")`. -/
def encodeUtf8 (s : String) : Bytes := s.toUTF8.data.toList

/-- `bs.decode("utf-8")`. -/
def decodeUtf8 (bs : Bytes) : Except Error String :=
  match String.fromUTF8? ⟨bs.toArray⟩ with
  | some s => .ok s
  | none => .error .unicodeDecodeError

/-- `xs[index]`. -/
def item {α : Type} (xs : List α) (index : Nat) : Except Error α :=
  match xs[index]? with
  | some x => .ok x
  | none => .error .indexError

/-! ## Protobuf primitives -/

/-- `_encode_varint`. -/
def encodeVarint (value : Nat) : Bytes :=
  if value > 0x7F then UInt8.ofNat ((value &&& 0x7F) ||| 0x80) :: encodeVarint (value >>> 7)
  else [UInt8.ofNat (value &&& 0x7F)]
termination_by value
decreasing_by
  rw [Nat.shiftRight_eq_div_pow]
  omega

/-- The loop of `_decode_varint`. -/
def decodeVarintLoop (buf : Bytes) (pos shift result : Nat) : Except Error (Nat × Nat) :=
  if pos ≥ buf.length then .error (.valueError "truncated varint")
  else do
    let b ← item buf pos
    let result := result ||| ((b.toNat &&& 0x7F) <<< shift)
    if b.toNat &&& 0x80 = 0 then .ok (result, pos + 1)
    else if shift + 7 ≥ 64 then .error (.valueError "varint too long")
    else decodeVarintLoop buf (pos + 1) (shift + 7) result
termination_by buf.length - pos

/-- `_decode_varint`. -/
def decodeVarint : Reader Error UInt8 Nat := fun buf pos => decodeVarintLoop buf pos 0 0

/-- `_encode_tag`. -/
def encodeTag (fieldNumber wireType : Nat) : Bytes :=
  encodeVarint ((fieldNumber <<< 3) ||| wireType)

/-- `_encode_length_delimited`. -/
def encodeLengthDelimited (fieldNumber : Nat) (payload : Bytes) : Bytes :=
  encodeTag fieldNumber wireLengthDelimited ++ (encodeVarint payload.length ++ payload)

/-- `_encode_uint64_field`. -/
def encodeUint64Field (fieldNumber value : Nat) : Bytes :=
  encodeTag fieldNumber wireVarint ++ encodeVarint value

/-- `length, pos = _decode_varint(buf, pos)`, the check of `pos + length` that
    raises `truncated`, and the slice `buf[pos:end]`. -/
def readDelimited (truncated : String) : Reader Error UInt8 Bytes :=
  decodeVarint.andThen fun length buf pos =>
    if pos + length > buf.length then .error (.valueError truncated)
    else .ok ((buf.drop pos).take length, pos + length)

/-- `_skip_unknown`, handing on the parse state `s`. -/
def skipUnknown {σ : Type} (wireType : Nat) (s : σ) : Reader Error UInt8 σ :=
  if wireType = wireVarint then decodeVarint.convert fun _ => .ok s
  else if wireType = wireLengthDelimited then
    (readDelimited "truncated length-delimited field").convert fun _ => .ok s
  else fun _ _ => .error (.valueError s!"unsupported wire type: {wireType}")

/-- One turn of a message loop: the field's tag, split into number and wire type. -/
def readField {σ : Type} (field : (fieldNumber wireType : Nat) → Reader Error UInt8 σ) :
    Reader Error UInt8 σ :=
  decodeVarint.andThen fun tag => field (tag >>> 3) (tag &&& 0x07)

/-- A length-delimited field whose bytes `update` turns into the next parse state. -/
def delimitedField {σ : Type} (truncated : String) (update : Bytes → Except Error σ) :
    Reader Error UInt8 σ :=
  (readDelimited truncated).convert update

/-- A varint field whose value `update` turns into the next parse state. -/
def varintField {σ : Type} (update : Nat → σ) : Reader Error UInt8 σ :=
  decodeVarint.convert fun value => .ok (update value)

/-! ## Encoders -/

/-- `_encode_tag_msg`. -/
def encodeTagMsg (t : Tag) : Bytes :=
  encodeLengthDelimited 1 (encodeUtf8 t.key) ++
    match t.value with
    | some value => encodeLengthDelimited 2 (encodeUtf8 value)
    | none => []

/-- `_encode_record_msg`. -/
def encodeRecordMsg (pkIndex : Nat) (ehkIndex : Option Nat) (data : Bytes) (tags : List Tag) :
    Bytes :=
  encodeUint64Field 1 pkIndex ++
    ((match ehkIndex with
      | some ehkIndex => encodeUint64Field 2 ehkIndex
      | none => []) ++
    (encodeLengthDelimited 3 data ++
      tags.flatMap fun t => encodeLengthDelimited 4 (encodeTagMsg t)))

/-- `_AggregatedBuilder`. -/
structure AggregatedBuilder where
  partitionKeys : List String := []
  explicitHashKeys : List String := []
  pkIndex : Dict String Nat := .empty
  ehkIndex : Dict String Nat := .empty
  records : List Bytes := []

/-- The index of `key` in a table, which is extended by `key` when it is new. -/
def intern (key : String) (keys : List String) (index : Dict String Nat) :
    Nat × List String × Dict String Nat :=
  match index.get? key with
  | some idx => (idx, keys, index)
  | none => (keys.length, keys ++ [key], index.set key keys.length)

/-- `_AggregatedBuilder.add`. -/
def AggregatedBuilder.add (b : AggregatedBuilder) (record : UserRecord) : AggregatedBuilder :=
  let (idx, partitionKeys, pkIndex) := intern record.partitionKey b.partitionKeys b.pkIndex
  match record.explicitHashKey with
  | none =>
    { b with
      partitionKeys, pkIndex
      records := b.records ++ [encodeRecordMsg idx none record.data record.tags] }
  | some ehk =>
    let (ehkIdx, explicitHashKeys, ehkIndex) := intern ehk b.explicitHashKeys b.ehkIndex
    { partitionKeys, explicitHashKeys, pkIndex, ehkIndex
      records := b.records ++ [encodeRecordMsg idx (some ehkIdx) record.data record.tags] }

/-- `_AggregatedBuilder.serialize`. -/
def AggregatedBuilder.serialize (b : AggregatedBuilder) : Bytes :=
  (b.partitionKeys.flatMap fun pk => encodeLengthDelimited 1 (encodeUtf8 pk)) ++
    ((b.explicitHashKeys.flatMap fun ehk => encodeLengthDelimited 2 (encodeUtf8 ehk)) ++
    b.records.flatMap (encodeLengthDelimited 3))

/-- The builder after every record has been added. -/
def build (records : List UserRecord) : AggregatedBuilder :=
  records.foldl AggregatedBuilder.add {}

/-- `encode_aggregated`. -/
def encodeAggregated (md5 : Bytes → Digest) (records : List UserRecord) : Except Error Bytes :=
  match records with
  | [] => .error (.valueError "encode_aggregated requires at least one record")
  | [record] => .ok record.data
  | _ =>
    let payload := (build records).serialize
    .ok (magic ++ payload ++ (md5 payload).val)

/-- `is_aggregated`. -/
def isAggregated (payload : Bytes) : Bool :=
  decide (payload.length ≥ magic.length + md5Len) && magic.isPrefixOf payload

/-! ## Decoders -/

/-- The local variables of `_decode_tag_msg`. -/
structure TagFields where
  key : Option String := none
  value : Option String := none

/-- The body of the `_decode_tag_msg` loop. -/
def tagField (s : TagFields) : Reader Error UInt8 TagFields :=
  readField fun fieldNumber wireType =>
    if fieldNumber = 1 ∧ wireType = wireLengthDelimited then
      delimitedField "truncated tag.key" fun chunk => do
        let key ← decodeUtf8 chunk
        return { s with key := some key }
    else if fieldNumber = 2 ∧ wireType = wireLengthDelimited then
      delimitedField "truncated tag.value" fun chunk => do
        let value ← decodeUtf8 chunk
        return { s with value := some value }
    else skipUnknown wireType s

/-- `_decode_tag_msg`. -/
def decodeTagMsg (buf : Bytes) : Except Error Tag := do
  let s ← scan tagField buf buf.length 0 {}
  match s.key with
  | none => .error (.valueError "Tag.key is required")
  | some key => return { key, value := s.value }

/-- The local variables of `_decode_record_msg`. -/
structure RecordFields where
  pkIndex : Option Nat := none
  ehkIndex : Option Nat := none
  data : Option Bytes := none
  tags : List Tag := []

/-- The body of the `_decode_record_msg` loop. -/
def recordField (s : RecordFields) : Reader Error UInt8 RecordFields :=
  readField fun fieldNumber wireType =>
    if fieldNumber = 1 ∧ wireType = wireVarint then
      varintField fun pkIndex => { s with pkIndex := some pkIndex }
    else if fieldNumber = 2 ∧ wireType = wireVarint then
      varintField fun ehkIndex => { s with ehkIndex := some ehkIndex }
    else if fieldNumber = 3 ∧ wireType = wireLengthDelimited then
      delimitedField "truncated record.data" fun chunk => return { s with data := some chunk }
    else if fieldNumber = 4 ∧ wireType = wireLengthDelimited then
      delimitedField "truncated record.tag" fun chunk => do
        let tag ← decodeTagMsg chunk
        return { s with tags := s.tags ++ [tag] }
    else skipUnknown wireType s

/-- `_decode_record_msg`. -/
def decodeRecordMsg (pkTable ehkTable : List String) (buf : Bytes) :
    Except Error DecodedRecord := do
  let s ← scan recordField buf buf.length 0 {}
  match s.pkIndex with
  | none => .error (.valueError "Record.partition_key_index is required")
  | some pkIndex =>
    match s.data with
    | none => .error (.valueError "Record.data is required")
    | some data =>
      if pkIndex ≥ pkTable.length then
        .error (.valueError s!"partition_key_index {pkIndex} out of range")
      else
        let explicitHashKey ← match s.ehkIndex with
          | none => pure none
          | some ehkIndex =>
            if ehkIndex ≥ ehkTable.length then
              .error (.valueError s!"explicit_hash_key_index {ehkIndex} out of range")
            else some <$> item ehkTable ehkIndex
        let partitionKey ← item pkTable pkIndex
        return { partitionKey, explicitHashKey, data, tags := s.tags }

/-- The lists `decode_aggregated` fills. -/
structure EnvelopeFields where
  pkTable : List String := []
  ehkTable : List String := []
  recordBlobs : List Bytes := []

/-- The body of the `decode_aggregated` loop. -/
def envelopeField (s : EnvelopeFields) : Reader Error UInt8 EnvelopeFields :=
  readField fun fieldNumber wireType =>
    if fieldNumber = 1 ∧ wireType = wireLengthDelimited then
      delimitedField "truncated partition_key_table entry" fun chunk => do
        let pk ← decodeUtf8 chunk
        return { s with pkTable := s.pkTable ++ [pk] }
    else if fieldNumber = 2 ∧ wireType = wireLengthDelimited then
      delimitedField "truncated explicit_hash_key_table entry" fun chunk => do
        let ehk ← decodeUtf8 chunk
        return { s with ehkTable := s.ehkTable ++ [ehk] }
    else if fieldNumber = 3 ∧ wireType = wireLengthDelimited then
      delimitedField "truncated record entry" fun chunk =>
        return { s with recordBlobs := s.recordBlobs ++ [chunk] }
    else skipUnknown wireType s

/-- `decode_aggregated`. -/
def decodeAggregated (md5 : Bytes → Digest) (payload : Bytes) :
    Except Error (List DecodedRecord) :=
  if payload.length < magic.length + md5Len then
    .error (.valueError "payload too short to be an aggregated record")
  else if ¬ magic.isPrefixOf payload then .error (.valueError "bad magic number")
  else
    let proto := (payload.take (payload.length - md5Len)).drop magic.length
    let expected := payload.drop (payload.length - md5Len)
    if (md5 proto).val ≠ expected then .error (.valueError "MD5 checksum mismatch")
    else do
      let s ← scan envelopeField proto proto.length 0 {}
      s.recordBlobs.mapM (decodeRecordMsg s.pkTable s.ehkTable)

end Aggregation

end Aiokpl
