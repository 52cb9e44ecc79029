import Concordia.Lib.LittleEndian
import Concordia.Lib.Framing
import Concordia.Lib.FoldHash
import Concordia.Lib.Writer
import Concordia.Lib.Overwrite

/-!
# The append-only file: record format

A committed record on disk is

```text
"CONC" | epoch | region id | offset | payload length | checksum | payload | "CMIT"
```

with five little-endian `u64` fields and an FNV-1a checksum over the other four
fields and the payload. `appendRecord` writes it with eight separate
`write_all` calls; `readRecord` is one iteration of the `read_committed` loop.
`usize` is a 64-bit integer, so the `u64`/`usize` conversions of the source
never fail.
-/

namespace Concordia.Aof

open Concordia.Lib Concordia.Lib.LittleEndian List

/-- `AofRecord`. -/
@[ext] structure AofRecord where
  epoch : UInt64
  regionId : UInt64
  offset : UInt64
  payload : ByteVec
  deriving DecidableEq, Repr, Inhabited

/-- `b"CONC"`. -/
def aofMagic : List UInt8 := [0x43, 0x4f, 0x4e, 0x43]

/-- `b"CMIT"`. -/
def aofCommit : List UInt8 := [0x43, 0x4d, 0x49, 0x54]

def aofHeaderLen : Nat := 44

def aofChecksumOffset : Nat := 36

/-! ## Checksum -/

/-- One byte of FNV-1a: xor, then multiply modulo `2^64`. -/
def fnvRound (hash : UInt64) (byte : UInt8) : UInt64 :=
  (hash ^^^ byte.toUInt64) * 0x100000001b3

def fnv1a64 (hash : UInt64) (bytes : List UInt8) : UInt64 := bytes.foldl fnvRound hash

def aofChecksum (epoch regionId offset payloadLen : UInt64) (payload : List UInt8) : UInt64 :=
  let hash := 0xcbf29ce484222325
  let hash := fnv1a64 hash (u64ToLe epoch)
  let hash := fnv1a64 hash (u64ToLe regionId)
  let hash := fnv1a64 hash (u64ToLe offset)
  let hash := fnv1a64 hash (u64ToLe payloadLen)
  fnv1a64 hash payload

/-- The four fields and the payload are hashed as one byte string. -/
theorem aofChecksum_eq_foldl (epoch regionId offset payloadLen : UInt64) (payload : List UInt8) :
    aofChecksum epoch regionId offset payloadLen payload =
      (u64ToLe epoch ++ u64ToLe regionId ++ u64ToLe offset ++ u64ToLe payloadLen ++
        payload).foldl fnvRound 0xcbf29ce484222325 := by
  simp only [aofChecksum, fnv1a64, foldl_append]

/-- The FNV prime is odd, so a round permutes the 64-bit states; and the byte
only meets the low eight bits of the state, so it can be read back. -/
theorem fnvRound_injective : InjectiveRound fnvRound := by
  have hinv : (0x100000001b3 : UInt64) * 0xce965057aff6957b = 1 := by decide
  have hmul : ∀ x y : UInt64, x * 0x100000001b3 = y * 0x100000001b3 → x = y := by
    intro x y h
    have h' := congrArg (· * (0xce965057aff6957b : UInt64)) h
    simpa only [UInt64.mul_assoc, hinv, UInt64.mul_one] using h'
  constructor
  · intro b s t h
    have hx := congrArg (· ^^^ b.toUInt64) (hmul _ _ h)
    simpa only [UInt64.xor_assoc, UInt64.xor_self, UInt64.xor_zero] using hx
  · intro s b b' h
    have hx := congrArg (s ^^^ ·) (hmul _ _ h)
    simp only [← UInt64.xor_assoc, UInt64.xor_self, UInt64.zero_xor] at hx
    have hn := congrArg UInt64.toNat hx
    exact UInt8.toNat_inj.mp (by simpa using hn)

/-! ## Writing -/

/-- `AofDiskLog::append_record`. `File::flush` does nothing. -/
def appendRecord (record : AofRecord) : WriteM UInt8 Unit := do
  let payloadLen := UInt64.ofNat record.payload.length
  writeAll aofMagic
  writeAll (u64ToLe record.epoch)
  writeAll (u64ToLe record.regionId)
  writeAll (u64ToLe record.offset)
  writeAll (u64ToLe payloadLen)
  writeAll (u64ToLe (aofChecksum record.epoch record.regionId record.offset payloadLen
    record.payload.data))
  writeAll record.payload.data
  writeAll aofCommit

/-- The 44 header bytes of a record. -/
def encodeHeader (record : AofRecord) : List UInt8 :=
  let payloadLen := UInt64.ofNat record.payload.length
  aofMagic ++ u64ToLe record.epoch ++ u64ToLe record.regionId ++ u64ToLe record.offset ++
    u64ToLe payloadLen ++
    u64ToLe (aofChecksum record.epoch record.regionId record.offset payloadLen
      record.payload.data)

/-- The bytes of a whole record. -/
def encodeRecord (record : AofRecord) : List UInt8 :=
  encodeHeader record ++ record.payload.data ++ aofCommit

@[simp] theorem length_encodeHeader (record : AofRecord) :
    (encodeHeader record).length = aofHeaderLen := by
  simp [encodeHeader, aofMagic, aofHeaderLen]

theorem length_encodeRecord (record : AofRecord) :
    (encodeRecord record).length = aofHeaderLen + record.payload.length + 4 := by
  simp [encodeRecord, aofCommit, ByteVec.length, Nat.add_assoc]

/-- The eight writes are one write of the record's bytes. -/
theorem appendRecord_eq (record : AofRecord) :
    appendRecord record = writeAll (encodeRecord record) := by
  simp only [appendRecord, encodeRecord, encodeHeader, writeAll_bind_writeAll, append_assoc]

/-! ## Reading -/

/-- The five integer fields of a record header. -/
structure AofHeader where
  epoch : UInt64
  regionId : UInt64
  offset : UInt64
  payloadLen : UInt64
  checksum : UInt64
  deriving DecidableEq, Repr

/-- The `read_le_u64` calls of `read_committed`. -/
def parseHeader (header : List UInt8) : AofHeader where
  epoch := u64OfLe (slice header 4 12)
  regionId := u64OfLe (slice header 12 20)
  offset := u64OfLe (slice header 20 28)
  payloadLen := u64OfLe (slice header 28 36)
  checksum := u64OfLe (slice header aofChecksumOffset (aofChecksumOffset + 8))

/-- The part of a `read_committed` iteration after the header: payload,
checksum test, commit marker. -/
def readBody (header : AofHeader) (input : List UInt8) : Scan AofRecord UInt8 :=
  if hbig : isizeMax < header.payloadLen.toNat then
    -- `vec![0u8; payload_len]` panics with a capacity overflow
    .abort
  else if input.length < header.payloadLen.toNat then .stop
  else
    let payload : ByteVec :=
      { data := input.take header.payloadLen.toNat
        length_le := Nat.le_trans (length_take_le ..) (Nat.le_of_not_lt hbig) }
    let input := input.drop header.payloadLen.toNat
    if aofChecksum header.epoch header.regionId header.offset header.payloadLen payload.data
        ≠ header.checksum then .stop
    else if input.length < 4 ∨ input.take 4 ≠ aofCommit then .stop
    else
      .item { epoch := header.epoch, regionId := header.regionId, offset := header.offset,
              payload := payload } (input.drop 4)

/-- One iteration of the `AofDiskLog::read_committed` loop on the unread part of
the file. -/
def readRecord (input : List UInt8) : Scan AofRecord UInt8 :=
  if input.length < aofHeaderLen then .stop
  else
    let header := input.take aofHeaderLen
    if slice header 0 4 ≠ aofMagic then .stop
    else readBody (parseHeader header) (input.drop aofHeaderLen)

end Concordia.Aof
