import Concordia.Aof.Log

/-!
# The append-only file: crashes and corruption

What `read_committed` returns from a log that was cut, appended to after a cut,
or altered in one byte.

* A cut log reads back as the records that end inside the cut
  (`readCommitted_cut`).
* `open_append` does not remove a torn tail, so records appended behind one are
  read back only by coincidence (`readCommitted_reopened_iff`).
* One altered byte outside the length fields costs the altered record and its
  successors, never a record before it (`readCommitted_corrupted`).
-/

namespace Concordia.Aof

open Concordia.Lib Concordia.Lib.LittleEndian List

/-! ## Cut logs -/

/-- **Prefix durability.** The first `n` bytes of a log read back as exactly the
records whose encoding ends at or before byte `n`, and the whole log as the
appended list. -/
theorem readCommitted_cut (records : List AofRecord) (n : Nat) :
    readCommitted ((appended records create).bytes.take n) =
        some (aofFraming.endingBy n 0 records) ∧
      readCommitted (appended records create).bytes = some records := by
  rw [appended_bytes records rfl]
  exact ⟨aofFraming.scan_take records n, readCommitted_encodeLog records⟩

/-! ## Appending behind a cut -/

/-- What a cut at byte `n` leaves of the record it falls in. -/
def tornTail (records : List AofRecord) (n : Nat) : List UInt8 :=
  ((encodeLog records).take n).drop (encodeLog (aofFraming.endingBy n 0 records)).length

/-- A cut log is its surviving records and the torn tail, which is not a
record. -/
theorem tornTail_spec (records : List AofRecord) (n : Nat) :
    (encodeLog records).take n =
        encodeLog (aofFraming.endingBy n 0 records) ++ tornTail records n ∧
      readRecord (tornTail records n) = .stop := by
  obtain ⟨tail, htake, htail⟩ := aofFraming.take_encodeAll records n
  change (encodeLog records).take n = encodeLog (aofFraming.endingBy n 0 records) ++ tail at htake
  have heq : tornTail records n = tail := by
    rw [tornTail, htake, drop_left]
  rw [heq]
  refine ⟨htake, ?_⟩
  rcases htail with rfl | ⟨record, _, m, _, hm, rfl⟩
  · exact aofFraming.next_nil
  · exact aofFraming.next_torn record m hm

/-- The bytes of `more` start again behind the torn bytes, so that the torn
bytes and the first copy are read as one copy of `more` and what is left over is
not a record. -/
def RepeatsBehind (torn : List UInt8) (more : List AofRecord) : Prop :=
  ∃ rest, torn ++ encodeLog more = encodeLog more ++ rest ∧ readRecord rest = .stop

/-- **Reopening a cut log.** Records appended behind a cut are read back after
the surviving ones exactly when the cut left no torn bytes, or nothing was
appended, or the appended bytes happen to repeat behind the torn ones. -/
theorem readCommitted_reopened_iff (records : List AofRecord) (n : Nat) (more : List AofRecord) :
    readCommitted (appended more (openAppend ((appended records create).bytes.take n))).bytes =
        some (aofFraming.endingBy n 0 records ++ more) ↔
      tornTail records n = [] ∨ more = [] ∨ RepeatsBehind (tornTail records n) more := by
  have hbytes : (appended more (openAppend ((appended records create).bytes.take n))).bytes =
      encodeLog (aofFraming.endingBy n 0 records) ++ (tornTail records n ++ encodeLog more) := by
    rw [appended_bytes more rfl, appended_bytes records rfl, openAppend, create, nil_append,
      (tornTail_spec records n).1, append_assoc]
  -- the surviving records drop out on both sides
  have hsplit : readCommitted (appended more
        (openAppend ((appended records create).bytes.take n))).bytes =
        some (aofFraming.endingBy n 0 records ++ more) ↔
      readCommitted (tornTail records n ++ encodeLog more) = some more := by
    rw [hbytes, readCommitted_encodeLog_append, Option.map_eq_some_iff]
    constructor
    · rintro ⟨found, hfound, heq⟩
      rw [hfound, append_cancel_left heq]
    · exact fun h => ⟨more, h, rfl⟩
  have hscan : readCommitted (tornTail records n ++ encodeLog more) = some more ↔
      RepeatsBehind (tornTail records n) more :=
    aofFraming.scan_eq_some_iff _ more
  rw [hsplit, hscan]
  constructor
  · exact fun h => .inr (.inr h)
  · rintro (htorn | rfl | h)
    · exact ⟨[], by rw [htorn, nil_append, append_nil], aofFraming.next_nil⟩
    · exact ⟨tornTail records n, by simp, (tornTail_spec records n).2⟩
    · exact h

/-- A record whose payload spells the magic and whose epoch the commit marker: its
first eight bytes finish a copy of itself that was cut behind the header. -/
def repeatingRecord : AofRecord :=
  { epoch := 0x54494d43, regionId := 7, offset := 0
    payload := ⟨[0x43, 0x4f, 0x4e, 0x43], by decide⟩ }

example : tornTail [repeatingRecord] 44 ≠ [] ∧
    RepeatsBehind (tornTail [repeatingRecord] 44) [repeatingRecord] :=
  ⟨by decide +kernel, (encodeRecord repeatingRecord).drop 8, by decide +kernel,
    by decide +kernel⟩

/-- A record with a one-byte payload. -/
def sampleRecord : AofRecord :=
  { epoch := 1, regionId := 7, offset := 0, payload := ⟨[9], by decide⟩ }

/-- A crash one byte into the second record: the record written after the
reopening is lost, although its own write succeeded. -/
theorem readCommitted_reopened_torn :
    readCommitted (appended [sampleRecord]
        (openAppend ((appended [sampleRecord, sampleRecord] create).bytes.take 50))).bytes ≠
      some (aofFraming.endingBy 50 0 [sampleRecord, sampleRecord] ++ [sampleRecord]) := by
  decide +kernel

/-! ## One altered byte -/

/-- Byte `pos` of a log lies in the payload-length field of its record. -/
def InLengthField (records : List AofRecord) (pos : Nat) : Prop :=
  let start := (encodeLog (aofFraming.endingBy pos 0 records)).length
  start + 28 ≤ pos ∧ pos < start + 36

/-- The checksum a reader computes, as a hash of header bytes 4 to 36 and the
payload. -/
theorem aofChecksum_parseHeader {header : List UInt8} (hlen : header.length = aofHeaderLen)
    (payload : List UInt8) :
    aofChecksum (parseHeader header).epoch (parseHeader header).regionId
        (parseHeader header).offset (parseHeader header).payloadLen payload =
      (slice header 4 36 ++ payload).foldl fnvRound 0xcbf29ce484222325 := by
  rw [aofChecksum_eq_foldl, checksumInput_eq_slice header hlen]

/-- The checksum stored in a written header is the one a reader computes. -/
theorem checksum_encodeHeader (record : AofRecord) :
    (parseHeader (encodeHeader record)).checksum =
      (slice (encodeHeader record) 4 36 ++ record.payload.data).foldl fnvRound
        0xcbf29ce484222325 := by
  rw [← aofChecksum_parseHeader (length_encodeHeader record),
    (parseHeader_encodeHeader record).2]
  rfl

section

variable (record : AofRecord) {i : Nat} {b : UInt8}

/-- An altered magic no longer reads "CONC". -/
theorem readRecord_magic_corrupted (hi : i < 4) (hb : (encodeHeader record)[i]? ≠ some b)
    (rest : List UInt8) : readRecord ((encodeHeader record).set i b ++ rest) = .stop := by
  have hlen := length_encodeHeader record
  have h44 : aofHeaderLen = 44 := rfl
  have hlen' : ((encodeHeader record).set i b).length = aofHeaderLen := by
    rw [length_set, hlen]
  have hne : slice ((encodeHeader record).set i b) 0 4 ≠ aofMagic := by
    rw [← (parseHeader_encodeHeader record).1]
    exact slice_set_ne (Nat.zero_le i) hi (by omega) hb
  rw [readRecord, if_neg (by rw [length_append]; omega), ← hlen', take_left]
  simp only [ne_eq, hne, not_false_eq_true, if_true]

/-- An altered epoch, region id, offset or checksum: the stored checksum is not
the hash of the other fields and the payload any more. -/
theorem checksum_header_corrupted (hi : i < (encodeHeader record).length)
    (hb : (encodeHeader record)[i]? ≠ some b) (h4 : 4 ≤ i) :
    (parseHeader ((encodeHeader record).set i b)).checksum ≠
      (slice ((encodeHeader record).set i b) 4 36 ++ record.payload.data).foldl fnvRound
        0xcbf29ce484222325 := by
  have hlen := length_encodeHeader record
  have h44 : aofHeaderLen = 44 := rfl
  by_cases h36 : i < 36
  · -- the hash changes
    have hstored : (parseHeader ((encodeHeader record).set i b)).checksum =
        (parseHeader (encodeHeader record)).checksum := by
      simp only [parseHeader, aofChecksumOffset]
      rw [slice_set_of_not_mem _ _ (.inl h36)]
    have hpos : i - 4 < (slice (encodeHeader record) 4 36).length := by
      rw [length_slice]
      omega
    rw [hstored, checksum_encodeHeader, slice_set _ _ h4, ← set_append_left _ _ hpos]
    apply Ne.symm
    apply fnvRound_injective.foldl_set_ne _ _ (by rw [length_append]; omega)
    rwa [getElem?_append_left hpos, getElem?_slice, if_pos (by omega),
      show 4 + (i - 4) = i by omega]
  · -- the stored checksum changes
    rw [slice_set_of_not_mem _ _ (.inr (by omega)), ← checksum_encodeHeader]
    intro heq
    simp only [parseHeader, aofChecksumOffset] at heq
    exact slice_set_ne (by omega) (by omega) hi hb
      (u64OfLe_injective (by rw [length_slice, length_set]; omega)
        (by rw [length_slice]; omega) heq)

/-- An altered header byte outside the length field: the magic, the checksum or
the hash of the other fields no longer fits. -/
theorem readRecord_header_corrupted (hi : i < (encodeHeader record).length)
    (hb : (encodeHeader record)[i]? ≠ some b) (hfield : ¬ (28 ≤ i ∧ i < 36)) (rest : List UInt8) :
    readRecord ((encodeHeader record).set i b ++ (record.payload.data ++ rest)) = .stop := by
  by_cases h4 : i < 4
  · exact readRecord_magic_corrupted record h4 hb _
  obtain ⟨hmagic, hparse⟩ := parseHeader_encodeHeader record
  have hlen' : ((encodeHeader record).set i b).length = aofHeaderLen := by
    rw [length_set, length_encodeHeader]
  have hmagic' : slice ((encodeHeader record).set i b) 0 4 = aofMagic := by
    rw [slice_set_of_not_mem _ _ (.inr (by omega)), hmagic]
  -- the length field is untouched, so the payload is cut out as it was written
  have hpayloadLen : (parseHeader ((encodeHeader record).set i b)).payloadLen.toNat =
      record.payload.data.length := by
    have hsame : (parseHeader ((encodeHeader record).set i b)).payloadLen =
        (parseHeader (encodeHeader record)).payloadLen := by
      simp only [parseHeader]
      rw [slice_set_of_not_mem _ _ (by omega)]
    rw [hsame, hparse]
    exact headerOf_payloadLen_toNat record
  rw [readRecord_append_of_magic hlen' hmagic']
  apply readBody_of_checksum_ne record.payload.length_le hpayloadLen
  rw [aofChecksum_parseHeader hlen']
  exact (checksum_header_corrupted record hi hb (by omega)).symm

/-- An altered payload byte changes the hash. -/
theorem readRecord_payload_corrupted (hi : i < record.payload.data.length)
    (hb : record.payload.data[i]? ≠ some b) (rest : List UInt8) :
    readRecord (encodeHeader record ++ (record.payload.data.set i b ++ rest)) = .stop := by
  obtain ⟨hmagic, hparse⟩ := parseHeader_encodeHeader record
  have hlen := length_encodeHeader record
  rw [readRecord_append_of_magic hlen hmagic]
  apply readBody_of_checksum_ne
  · rw [length_set]
    exact record.payload.length_le
  · rw [hparse, length_set]
    exact headerOf_payloadLen_toNat record
  · rw [aofChecksum_parseHeader hlen, checksum_encodeHeader]
    have hpos : (slice (encodeHeader record) 4 36).length + i <
        (slice (encodeHeader record) 4 36 ++ record.payload.data).length := by
      rw [length_append]
      omega
    have hset : slice (encodeHeader record) 4 36 ++ record.payload.data.set i b =
        (slice (encodeHeader record) 4 36 ++ record.payload.data).set
          ((slice (encodeHeader record) 4 36).length + i) b := by
      rw [set_append_right _ _ (by omega), Nat.add_sub_cancel_left]
    rw [hset]
    apply fnvRound_injective.foldl_set_ne _ _ hpos
    rwa [getElem?_append_right (by omega), Nat.add_sub_cancel_left]

/-- An altered commit byte is not a commit marker. -/
theorem readRecord_commit_corrupted (hi : i < aofCommit.length) (hb : aofCommit[i]? ≠ some b)
    (rest : List UInt8) :
    readRecord (encodeHeader record ++ (record.payload.data ++ (aofCommit.set i b ++ rest))) =
      .stop := by
  have hlen : (aofCommit.set i b).length = 4 := by rw [length_set]; rfl
  rw [readRecord_encodeHeader_append, readBody_headerOf_append, if_pos]
  refine .inr ?_
  rw [← hlen, take_left]
  intro heq
  have hat := congrArg (·[i]?) heq
  simp only [getElem?_set_self hi] at hat
  exact hb hat.symm

/-- An altered record is never accepted. -/
theorem readRecord_corrupted (hi : i < (encodeRecord record).length)
    (hb : (encodeRecord record)[i]? ≠ some b) (hfield : ¬ (28 ≤ i ∧ i < 36)) (rest : List UInt8) :
    readRecord ((encodeRecord record).set i b ++ rest) = .stop := by
  rw [encodeRecord, append_assoc] at hb ⊢
  rw [encodeRecord, append_assoc, length_append, length_append] at hi
  by_cases h1 : i < (encodeHeader record).length
  · rw [getElem?_append_left h1] at hb
    rw [set_append_left _ _ h1, append_assoc, append_assoc]
    exact readRecord_header_corrupted record h1 hb hfield _
  rw [getElem?_append_right (by omega)] at hb
  rw [set_append_right _ _ (by omega), append_assoc]
  by_cases h2 : i - (encodeHeader record).length < record.payload.data.length
  · rw [getElem?_append_left h2] at hb
    rw [set_append_left _ _ h2, append_assoc]
    exact readRecord_payload_corrupted record h2 hb _
  rw [getElem?_append_right (by omega)] at hb
  rw [set_append_right _ _ (by omega), append_assoc]
  exact readRecord_commit_corrupted record (by omega) hb _

end

/-- **Single-byte corruption.** One byte changed outside the length fields:
exactly the records that end before it are read back. -/
theorem readCommitted_corrupted (records : List AofRecord) (pos : Nat) (b : UInt8)
    (hpos : pos < (appended records create).bytes.length)
    (hb : (appended records create).bytes[pos]? ≠ some b)
    (hfield : ¬ InLengthField records pos) :
    readCommitted ((appended records create).bytes.set pos b) =
      some (aofFraming.endingBy pos 0 records) := by
  rw [appended_bytes records rfl] at hpos hb ⊢
  change pos < (encodeLog records).length at hpos
  change (encodeLog records)[pos]? ≠ some b at hb
  change readCommitted ((encodeLog records).set pos b) = _
  obtain ⟨record, later, hsplit, hstart, hend⟩ := aofFraming.exists_frame_at records pos hpos
  change (encodeLog (aofFraming.endingBy pos 0 records)).length ≤ pos at hstart
  change pos < (encodeLog (aofFraming.endingBy pos 0 records)).length +
    (encodeRecord record).length at hend
  have hbytes : encodeLog records = encodeLog (aofFraming.endingBy pos 0 records) ++
      (encodeRecord record ++ encodeLog later) := by
    rw [← encodeLog_cons, ← encodeLog_append, ← hsplit]
  have hfield' : ¬ (28 ≤ pos - (encodeLog (aofFraming.endingBy pos 0 records)).length ∧
      pos - (encodeLog (aofFraming.endingBy pos 0 records)).length < 36) := by
    intro h
    exact hfield ⟨by omega, by omega⟩
  rw [hbytes, getElem?_append_right hstart, getElem?_append_left (by omega)] at hb
  have hstop : readCommitted ((encodeRecord record).set
      (pos - (encodeLog (aofFraming.endingBy pos 0 records)).length) b ++ encodeLog later) =
      some [] :=
    aofFraming.scan_of_stop (readRecord_corrupted record (by omega) hb hfield' _)
  rw [hbytes, set_append_right _ _ hstart, set_append_left _ _ (by omega),
    readCommitted_encodeLog_append, hstop]
  simp

/-- Byte 89 lies in the checksum of the second record: the first is read back. -/
theorem readCommitted_corrupted_checksum :
    (89 < (appended [sampleRecord, sampleRecord] create).bytes.length ∧
      (appended [sampleRecord, sampleRecord] create).bytes[89]? ≠ some 0 ∧
      ¬ InLengthField [sampleRecord, sampleRecord] 89) ∧
    readCommitted ((appended [sampleRecord, sampleRecord] create).bytes.set 89 0) =
      some [sampleRecord] := by
  have hpos : 89 < (appended [sampleRecord, sampleRecord] create).bytes.length := by
    decide +kernel
  have hb : (appended [sampleRecord, sampleRecord] create).bytes[89]? ≠ some 0 := by
    decide +kernel
  have hfield : ¬ InLengthField [sampleRecord, sampleRecord] 89 := by
    unfold InLengthField
    decide +kernel
  have hbefore : aofFraming.endingBy 89 0 [sampleRecord, sampleRecord] = [sampleRecord] := by
    decide +kernel
  refine ⟨⟨hpos, hb, hfield⟩, ?_⟩
  rw [readCommitted_corrupted [sampleRecord, sampleRecord] 89 0 hpos hb hfield, hbefore]

end Concordia.Aof
