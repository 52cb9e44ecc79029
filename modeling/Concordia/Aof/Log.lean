import Concordia.Aof.Record

/-!
# The append-only file: whole logs

The record format is a `Framing`: `readRecord` undoes `encodeRecord` whatever
follows, returns only records whose encoding it consumed, and stops at every
torn record. Appending a list of records is then one write of its bytes
(`appendRecords_eq`), and reading them back is a scan of the framing.
-/

namespace Concordia.Aof

open Concordia.Lib Concordia.Lib.LittleEndian List Nat

/-! ## The format is a framing -/

theorem checksumInput_eq_slice (header : List UInt8) (hlen : header.length = aofHeaderLen) :
    u64ToLe (parseHeader header).epoch ++ u64ToLe (parseHeader header).regionId ++
        u64ToLe (parseHeader header).offset ++ u64ToLe (parseHeader header).payloadLen =
      slice header 4 36 := by
  rw [aofHeaderLen] at hlen
  simp only [parseHeader]
  rw [u64ToLe_u64OfLe _ (by rw [length_slice]; omega),
    u64ToLe_u64OfLe _ (by rw [length_slice]; omega),
    u64ToLe_u64OfLe _ (by rw [length_slice]; omega),
    u64ToLe_u64OfLe _ (by rw [length_slice]; omega),
    slice_append_slice _ (by omega) (by omega), slice_append_slice _ (by omega) (by omega),
    slice_append_slice _ (by omega) (by omega)]

/-- The five fields and the magic are all of the header. -/
theorem header_eq_fields (header : List UInt8) (hlen : header.length = aofHeaderLen) :
    slice header 0 4 ++ u64ToLe (parseHeader header).epoch ++
        u64ToLe (parseHeader header).regionId ++ u64ToLe (parseHeader header).offset ++
        u64ToLe (parseHeader header).payloadLen ++ u64ToLe (parseHeader header).checksum =
      header := by
  have hsum : u64ToLe (parseHeader header).checksum = slice header 36 44 := by
    rw [aofHeaderLen] at hlen
    simp only [parseHeader, aofChecksumOffset]
    rw [u64ToLe_u64OfLe _ (by rw [length_slice]; omega)]
  have hjoin := checksumInput_eq_slice header hlen
  rw [aofHeaderLen] at hlen
  simp only [append_assoc] at hjoin ⊢
  rw [← append_assoc _ _ (u64ToLe (parseHeader header).checksum),
    ← append_assoc _ _ (u64ToLe (parseHeader header).checksum),
    ← append_assoc _ _ (u64ToLe (parseHeader header).checksum), hjoin, hsum,
    slice_append_slice _ (by omega) (by omega), slice_append_slice _ (by omega) (by omega),
    slice, take_of_length_le (by omega), drop_zero]

def headerOf (record : AofRecord) : AofHeader where
  epoch := record.epoch
  regionId := record.regionId
  offset := record.offset
  payloadLen := UInt64.ofNat record.payload.length
  checksum := aofChecksum record.epoch record.regionId record.offset
    (UInt64.ofNat record.payload.length) record.payload.data

@[simp] theorem headerOf_payloadLen_toNat (record : AofRecord) :
    (headerOf record).payloadLen.toNat = record.payload.length := by
  simp only [headerOf, UInt64.toNat_ofNat']
  exact mod_eq_of_lt record.payload.length_lt

theorem u64ToLe_injective : Function.Injective u64ToLe := by
  intro a b h
  rw [← u64OfLe_u64ToLe a, h, u64OfLe_u64ToLe]

/-- Parsing undoes writing, field by field: both sides are the same header cut
into fields of the same widths. -/
theorem parseHeader_encodeHeader (record : AofRecord) :
    slice (encodeHeader record) 0 4 = aofMagic ∧
      parseHeader (encodeHeader record) = headerOf record := by
  have hlen := length_encodeHeader record
  have h : _ = aofMagic ++ u64ToLe (headerOf record).epoch ++ u64ToLe (headerOf record).regionId ++
      u64ToLe (headerOf record).offset ++ u64ToLe (headerOf record).payloadLen ++
      u64ToLe (headerOf record).checksum := header_eq_fields (encodeHeader record) hlen
  obtain ⟨h, hchecksum⟩ := append_inj' h (by simp)
  obtain ⟨h, hpayloadLen⟩ := append_inj' h (by simp)
  obtain ⟨h, hoffset⟩ := append_inj' h (by simp)
  obtain ⟨h, hregionId⟩ := append_inj' h (by simp)
  obtain ⟨hmagic, hepoch⟩ := append_inj' h (by simp)
  refine ⟨hmagic, ?_⟩
  have hext : ∀ a b : AofHeader, a.epoch = b.epoch → a.regionId = b.regionId →
      a.offset = b.offset → a.payloadLen = b.payloadLen → a.checksum = b.checksum → a = b := by
    rintro ⟨⟩ ⟨⟩ rfl rfl rfl rfl rfl
    rfl
  exact hext _ _ (u64ToLe_injective hepoch) (u64ToLe_injective hregionId)
    (u64ToLe_injective hoffset) (u64ToLe_injective hpayloadLen) (u64ToLe_injective hchecksum)

/-- A header with the right magic sends the reader to the body. -/
theorem readRecord_append_of_magic {header : List UInt8} (hlen : header.length = aofHeaderLen)
    (hmagic : slice header 0 4 = aofMagic) (rest : List UInt8) :
    readRecord (header ++ rest) = readBody (parseHeader header) rest := by
  have hlong : ¬ (header ++ rest).length < aofHeaderLen := by
    rw [length_append, hlen]
    omega
  rw [readRecord, if_neg hlong, ← hlen]
  simp only [take_left, drop_left, hmagic, ne_eq, not_true_eq_false, if_false]

theorem readRecord_encodeHeader_append (record : AofRecord) (rest : List UInt8) :
    readRecord (encodeHeader record ++ rest) = readBody (headerOf record) rest := by
  obtain ⟨hmagic, hparse⟩ := parseHeader_encodeHeader record
  rw [readRecord_append_of_magic (length_encodeHeader record) hmagic, hparse]

/-- A body that starts with the payload comes down to the commit marker. -/
theorem readBody_headerOf_append (record : AofRecord) (rest : List UInt8) :
    readBody (headerOf record) (record.payload.data ++ rest) =
      if rest.length < 4 ∨ rest.take 4 ≠ aofCommit then .stop else .item record (rest.drop 4) := by
  have hsmall : ¬ isizeMax < (headerOf record).payloadLen.toNat := by
    rw [headerOf_payloadLen_toNat]
    exact not_lt.mpr record.payload.length_le
  have hlong : ¬ (record.payload.data ++ rest).length < (headerOf record).payloadLen.toNat := by
    rw [headerOf_payloadLen_toNat, length_append]
    exact not_lt.mpr (le_add_right _ _)
  have htake : (record.payload.data ++ rest).take (headerOf record).payloadLen.toNat =
      record.payload.data := by
    rw [headerOf_payloadLen_toNat]
    exact take_left
  have hdrop : (record.payload.data ++ rest).drop (headerOf record).payloadLen.toNat = rest := by
    rw [headerOf_payloadLen_toNat]
    exact drop_left
  rw [readBody, dif_neg hsmall, if_neg hlong]
  simp only [htake, hdrop]
  rw [if_neg (by simp [headerOf])]
  rfl

/-- A whole payload whose checksum is not the stored one stops the reader. -/
theorem readBody_of_checksum_ne {header : AofHeader} {payload : List UInt8}
    (hle : payload.length ≤ isizeMax) (hlen : header.payloadLen.toNat = payload.length)
    (hsum : aofChecksum header.epoch header.regionId header.offset header.payloadLen payload
      ≠ header.checksum) (rest : List UInt8) :
    readBody header (payload ++ rest) = .stop := by
  rw [readBody, dif_neg (by omega), if_neg (by rw [length_append]; omega)]
  simp only [hlen, take_left]
  rw [if_pos hsum]

/-- A payload that is not all there stops the reader. -/
theorem readBody_headerOf_short (record : AofRecord) {rest : List UInt8}
    (h : rest.length < record.payload.length) : readBody (headerOf record) rest = .stop := by
  have hsmall : ¬ isizeMax < (headerOf record).payloadLen.toNat := by
    rw [headerOf_payloadLen_toNat]
    exact not_lt.mpr record.payload.length_le
  rw [readBody, dif_neg hsmall, if_pos (by rwa [headerOf_payloadLen_toNat])]

theorem readRecord_encodeRecord_append (record : AofRecord) (rest : List UInt8) :
    readRecord (encodeRecord record ++ rest) = .item record rest := by
  rw [encodeRecord, append_assoc, append_assoc, readRecord_encodeHeader_append,
    readBody_headerOf_append, if_neg (by simp [aofCommit])]
  rfl

/-- A cut record is never accepted, wherever the cut falls. -/
theorem readRecord_torn (record : AofRecord) (n : Nat) (h : n < (encodeRecord record).length) :
    readRecord ((encodeRecord record).take n) = .stop := by
  have hhead := length_encodeHeader record
  rw [length_encodeRecord] at h
  by_cases hheader : n < aofHeaderLen
  · -- inside the header
    rw [readRecord, if_pos (Nat.lt_of_le_of_lt (length_take_le ..) hheader)]
  obtain ⟨m, rfl⟩ := Nat.exists_eq_add_of_le (Nat.le_of_not_lt hheader)
  rw [encodeRecord, append_assoc, ← hhead, take_length_add_append,
    readRecord_encodeHeader_append]
  by_cases hpayload : m < record.payload.length
  · -- inside the payload
    exact readBody_headerOf_short record (Nat.lt_of_le_of_lt (length_take_le ..) hpayload)
  · -- inside the commit marker
    obtain ⟨k, rfl⟩ := Nat.exists_eq_add_of_le (Nat.le_of_not_lt hpayload)
    rw [ByteVec.length, take_length_add_append, readBody_headerOf_append, if_pos]
    refine .inl (Nat.lt_of_le_of_lt (length_take_le ..) ?_)
    omega

/-- Whatever `readBody` accepts is a payload with a matching checksum and a
commit marker. -/
theorem readBody_eq_item {header : AofHeader} {input rest : List UInt8} {record : AofRecord}
    (h : readBody header input = .item record rest) :
    headerOf record = header ∧ input = record.payload.data ++ aofCommit ++ rest := by
  unfold readBody at h
  split at h
  · cases h
  split at h
  · cases h
  rename_i hlong
  simp only at h
  split at h
  · cases h
  rename_i hsum
  split at h
  · cases h
  rename_i hcommit
  simp only [not_or, not_not] at hsum hcommit
  obtain ⟨hrec, hrest⟩ := Scan.item.inj h
  have hlen : (input.take header.payloadLen.toNat).length = header.payloadLen.toNat := by
    rw [length_take]
    omega
  constructor
  · rw [← hrec]
    simp only [headerOf, ByteVec.length, hlen, UInt64.ofNat_toNat, hsum]
  · rw [← hrec, ← hrest, ← hcommit.2, append_assoc, take_append_drop,
      take_append_drop]

/-- Whatever `readRecord` accepts is the encoding of the record it returns. -/
theorem encodeRecord_of_readRecord (input : List UInt8) (record : AofRecord) (rest : List UInt8)
    (h : readRecord input = .item record rest) : input = encodeRecord record ++ rest := by
  unfold readRecord at h
  split at h
  · cases h
  rename_i hlong
  simp only at h
  split at h
  · cases h
  rename_i hmagic
  rw [not_not] at hmagic
  obtain ⟨hheader, hbody⟩ := readBody_eq_item h
  have hlen : (input.take aofHeaderLen).length = aofHeaderLen := by
    rw [length_take]
    omega
  have hfields : encodeHeader record = input.take aofHeaderLen := by
    have hjoin := header_eq_fields (input.take aofHeaderLen) hlen
    rw [hmagic, ← hheader] at hjoin
    exact hjoin
  rw [encodeRecord, hfields, append_assoc, append_assoc, ← append_assoc _ aofCommit,
    ← hbody, take_append_drop]

def aofFraming : Framing AofRecord UInt8 where
  encode := encodeRecord
  next := readRecord
  next_encode := readRecord_encodeRecord_append
  encode_of_next := encodeRecord_of_readRecord
  encode_pos := fun record => by
    rw [length_encodeRecord]
    omega
  next_torn := readRecord_torn

/-! ## Logs on disk -/

/-- The bytes of a log. -/
def encodeLog (records : List AofRecord) : List UInt8 := aofFraming.encodeAll records

@[simp] theorem encodeLog_nil : encodeLog [] = [] := rfl

@[simp] theorem encodeLog_cons (record : AofRecord) (records : List AofRecord) :
    encodeLog (record :: records) = encodeRecord record ++ encodeLog records := rfl

@[simp] theorem encodeLog_append (first second : List AofRecord) :
    encodeLog (first ++ second) = encodeLog first ++ encodeLog second :=
  aofFraming.encodeAll_append first second

/-- `AofDiskLog::create`: the file is truncated. -/
def create : File UInt8 := { bytes := [], fault := none }

/-- `AofDiskLog::open_append`: the file is opened as it is. -/
def openAppend (bytes : List UInt8) : File UInt8 := { bytes := bytes, fault := none }

/-- `append_record` on each record in turn, giving up at the first failed
write. -/
def appendRecords : List AofRecord → WriteM UInt8 Unit
  | [] => pure ()
  | record :: records => do
    appendRecord record
    appendRecords records

/-- The file left by appending `records` to `file`. -/
def appended (records : List AofRecord) (file : File UInt8) : File UInt8 :=
  ((appendRecords records).exec file).2

/-- `AofDiskLog::read_committed`; `none` is the panic of an oversized
allocation. -/
def readCommitted (bytes : List UInt8) : Option (List AofRecord) := scan readRecord bytes

theorem appendRecords_eq (records : List AofRecord) :
    appendRecords records = writeAll (encodeLog records) := by
  induction records with
  | nil => simp [appendRecords]
  | cons record records ih =>
    rw [appendRecords, ih, appendRecord_eq, writeAll_bind_writeAll, encodeLog_cons]

theorem appended_bytes (records : List AofRecord) {file : File UInt8} (h : file.fault = none) :
    (appended records file).bytes = file.bytes ++ encodeLog records := by
  rw [appended, appendRecords_eq, exec_writeAll_of_none h]

theorem readCommitted_encodeLog (records : List AofRecord) :
    readCommitted (encodeLog records) = some records :=
  aofFraming.scan_encodeAll records

theorem readCommitted_encodeLog_append (records : List AofRecord) (rest : List UInt8) :
    readCommitted (encodeLog records ++ rest) = (readCommitted rest).map (records ++ ·) :=
  aofFraming.scan_encodeAll_append records rest

end Concordia.Aof
