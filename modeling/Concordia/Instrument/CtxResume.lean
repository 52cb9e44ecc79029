import Concordia.Lib.Fallible
import Concordia.Lib.Fields

/-!
# Records of a context to resume

`build_ctx_resume_record` packs a header of 48 bytes and two payloads. The header
stores the length of each payload in 32 bits, after checking that it fits, so a
record says where its payloads are and comes from one call only
(`ctxResumeRecord_self_describing`).
-/

namespace Concordia.Instrument

open Concordia.Lib LittleEndian List Nat

def ctxResumeMagic : UInt32 := 0x30585443

def ctxResumeVersion : UInt16 := 1

def ctxResumeHeaderBytes : Nat := 48

inductive CtxResumeTarget where
  | nvidiaPtx
  | amdRocm
  | intelSpirv
  | tenstorrentTosa
  deriving DecidableEq, Repr

def CtxResumeTarget.code : CtxResumeTarget → UInt16
  | .nvidiaPtx => 1
  | .amdRocm => 2
  | .intelSpirv => 3
  | .tenstorrentTosa => 4

structure CtxResumeHeader where
  magic : UInt32
  version : UInt16
  headerBytes : Nat
  target : CtxResumeTarget
  kernelId : UInt64
  safePointId : UInt64
  registerBytes : Nat
  sharedMemoryBytes : Nat
  recordBytes : Nat
  deriving DecidableEq, Repr

structure CtxResumeRecord where
  header : CtxResumeHeader
  bytes : List UInt8
  deriving DecidableEq, Repr

/-- `checked_add` on `usize`. -/
def checkedAdd (a b : Nat) : Option Nat := if a + b < 2 ^ 64 then some (a + b) else none

/-- `u32::try_from`. -/
def tryU32 (n : Nat) : Option Nat := if n < 2 ^ 32 then some n else none

/-- A missing value is the error. -/
def okOrElse (value : Option Nat) (err : String) : Except String Nat :=
  match value with
  | some n => .ok n
  | none => .error err

/-- What a call passes in. -/
structure CtxResumeCall where
  target : CtxResumeTarget
  kernelId : UInt64
  safePointId : UInt64
  registerPayload : ByteVec
  sharedMemoryPayload : ByteVec
  deriving DecidableEq, Repr

namespace CtxResumeCall

/-- The header in memory. -/
def header (call : CtxResumeCall) (recordBytes : Nat) : CtxResumeHeader where
  magic := ctxResumeMagic
  version := ctxResumeVersion
  headerBytes := ctxResumeHeaderBytes
  target := call.target
  kernelId := call.kernelId
  safePointId := call.safePointId
  registerBytes := call.registerPayload.length
  sharedMemoryBytes := call.sharedMemoryPayload.length
  recordBytes := recordBytes

/-- The fields of the header as they are written, with their widths. -/
def fields (call : CtxResumeCall) (registerBytes sharedMemoryBytes recordBytes : Nat) :
    List (Nat × Nat) :=
  [(4, ctxResumeMagic.toNat), (2, ctxResumeVersion.toNat), (2, ctxResumeHeaderBytes % 2 ^ 16),
    (2, call.target.code.toNat), (2, 0), (8, call.kernelId.toNat), (8, call.safePointId.toNat),
    (4, registerBytes), (4, sharedMemoryBytes), (4, recordBytes), (4, 0), (4, 0)]

end CtxResumeCall

/-- `build_ctx_resume_record`. -/
def buildCtxResumeRecord (call : CtxResumeCall) : Except String CtxResumeRecord := do
  let registerBytes := call.registerPayload.length
  let sharedMemoryBytes := call.sharedMemoryPayload.length
  let payloadBytes ← okOrElse (checkedAdd registerBytes sharedMemoryBytes)
    "CTX resume payload length overflow"
  let recordBytes ← okOrElse (checkedAdd ctxResumeHeaderBytes payloadBytes)
    "CTX resume record length overflow"
  let registerBytesU32 ← okOrElse (tryU32 registerBytes) "CTX register payload is too large"
  let sharedMemoryBytesU32 ← okOrElse (tryU32 sharedMemoryBytes)
    "CTX shared-memory payload is too large"
  let recordBytesU32 ← okOrElse (tryU32 recordBytes) "CTX resume record is too large"
  pure {
    header := call.header recordBytes
    bytes := pack (call.fields registerBytesU32 sharedMemoryBytesU32 recordBytesU32) ++
      call.registerPayload.data ++ call.sharedMemoryPayload.data }

/-! ## What a call returns -/

theorem okOrElse_eq_ok_iff {value : Option Nat} {err : String} {n : Nat} :
    okOrElse value err = .ok n ↔ value = some n := by
  cases value <;> simp [okOrElse]

theorem tryU32_eq_some_iff {m n : Nat} : tryU32 m = some n ↔ m < 2 ^ 32 ∧ m = n := by
  simp [tryU32]

theorem checkedAdd_eq_some_iff {a b n : Nat} :
    checkedAdd a b = some n ↔ a + b < 2 ^ 64 ∧ a + b = n := by
  simp [checkedAdd]

section

variable {call other : CtxResumeCall} {record : CtxResumeRecord}

/-- A call succeeds exactly when the record's length fits in 32 bits. -/
theorem buildCtxResumeRecord_eq_ok_iff : buildCtxResumeRecord call = .ok record ↔
    ∃ total, total = ctxResumeHeaderBytes +
        (call.registerPayload.length + call.sharedMemoryPayload.length) ∧ total < 2 ^ 32 ∧
      record = {
        header := call.header total
        bytes := pack (call.fields call.registerPayload.length call.sharedMemoryPayload.length
          total) ++ call.registerPayload.data ++ call.sharedMemoryPayload.data } := by
  simp only [buildCtxResumeRecord, except_bind_eq_ok_iff, okOrElse_eq_ok_iff, tryU32_eq_some_iff,
    checkedAdd_eq_some_iff]
  constructor
  · rintro ⟨_, ⟨_, rfl⟩, _, ⟨_, rfl⟩, _, ⟨_, rfl⟩, _, ⟨_, rfl⟩, _, ⟨hlt, rfl⟩, h⟩
    exact ⟨_, rfl, hlt, (Except.ok.inj h).symm⟩
  · rintro ⟨_, rfl, hlt, rfl⟩
    refine ⟨_, ⟨by omega, rfl⟩, _, ⟨by omega, rfl⟩, _, ⟨by omega, rfl⟩, _, ⟨by omega, rfl⟩, _,
      ⟨hlt, rfl⟩, rfl⟩

end

/-! ## Reading a record back -/

/-- The number that the header stores between two offsets. -/
def storedField (bytes : List UInt8) (start width : Nat) : Nat :=
  ofLe (slice bytes start (start + width))

def storedRegisterBytes (bytes : List UInt8) : Nat := storedField bytes 28 4

def storedSharedMemoryBytes (bytes : List UInt8) : Nat := storedField bytes 32 4

/-- The register payload, by the lengths in the bytes. -/
def storedRegisterPayload (bytes : List UInt8) : List UInt8 :=
  slice bytes ctxResumeHeaderBytes (ctxResumeHeaderBytes + storedRegisterBytes bytes)

/-- The shared-memory payload, by the lengths in the bytes. -/
def storedSharedMemoryPayload (bytes : List UInt8) : List UInt8 :=
  slice bytes (ctxResumeHeaderBytes + storedRegisterBytes bytes)
    (ctxResumeHeaderBytes + storedRegisterBytes bytes + storedSharedMemoryBytes bytes)

theorem CtxResumeTarget.code_inj {a b : CtxResumeTarget} (h : a.code.toNat = b.code.toNat) :
    a = b := by
  cases a <;> cases b <;> first | rfl | exact absurd h (by decide)

section

variable {call : CtxResumeCall} {record : CtxResumeRecord}

/-- Everything that a call passed in is read back from the bytes. -/
theorem stored_of_ok (h : buildCtxResumeRecord call = .ok record) :
    record.bytes.length = record.header.recordBytes ∧
      storedField record.bytes 8 2 = call.target.code.toNat ∧
      storedField record.bytes 12 8 = call.kernelId.toNat ∧
      storedField record.bytes 20 8 = call.safePointId.toNat ∧
      storedRegisterPayload record.bytes = call.registerPayload.data ∧
      storedSharedMemoryPayload record.bytes = call.sharedMemoryPayload.data := by
  obtain ⟨total, htotal, hlt, rfl⟩ := buildCtxResumeRecord_eq_ok_iff.mp h
  have hcode := call.target.code.toNat_lt
  have hkernel := call.kernelId.toNat_lt
  have hsafe := call.safePointId.toNat_lt
  dsimp only
  generalize hfields : call.fields call.registerPayload.length call.sharedMemoryPayload.length
    total = fields
  have hpacked : (pack fields).length = ctxResumeHeaderBytes := by
    rw [← hfields, length_pack]
    rfl
  have hregister : storedRegisterBytes (pack fields ++ call.registerPayload.data ++
      call.sharedMemoryPayload.data) = call.registerPayload.length := by
    rw [append_assoc, ← hfields]
    refine (ofLe_field (k := 7) rfl _).trans (mod_eq_of_lt ?_)
    omega
  have hshared : storedSharedMemoryBytes (pack fields ++ call.registerPayload.data ++
      call.sharedMemoryPayload.data) = call.sharedMemoryPayload.length := by
    rw [append_assoc, ← hfields]
    refine (ofLe_field (k := 8) rfl _).trans (mod_eq_of_lt ?_)
    omega
  refine ⟨?_, ?_, ?_, ?_, ?_, ?_⟩
  · rw [length_append, length_append, hpacked]
    show _ = total
    rw [htotal, add_assoc]
    rfl
  · rw [append_assoc, ← hfields]
    exact (ofLe_field (k := 3) rfl _).trans (mod_eq_of_lt hcode)
  · rw [append_assoc, ← hfields]
    exact (ofLe_field (k := 5) rfl _).trans (mod_eq_of_lt hkernel)
  · rw [append_assoc, ← hfields]
    exact (ofLe_field (k := 6) rfl _).trans (mod_eq_of_lt hsafe)
  · rw [storedRegisterPayload, hregister, append_assoc]
    exact slice_middle _ _ _ hpacked.symm rfl
  · rw [storedSharedMemoryPayload, hregister, hshared]
    have hfront : ctxResumeHeaderBytes + call.registerPayload.length =
        (pack fields ++ call.registerPayload.data).length := by
      rw [length_append, hpacked]
      rfl
    have hslice := slice_middle (pack fields ++ call.registerPayload.data)
      call.sharedMemoryPayload.data [] hfront rfl
    rwa [append_nil] at hslice

end

/-- **Self-describing records.** The bytes of a record are as many as its header
says, the lengths in them give back both payloads, and another call gives other
bytes. -/
theorem ctxResumeRecord_self_describing (call : CtxResumeCall) (record : CtxResumeRecord)
    (h : buildCtxResumeRecord call = .ok record) :
    record.bytes.length = record.header.recordBytes ∧
      storedRegisterPayload record.bytes = call.registerPayload.data ∧
      storedSharedMemoryPayload record.bytes = call.sharedMemoryPayload.data ∧
      ∀ call' record', buildCtxResumeRecord call' = .ok record' → call' ≠ call →
        record'.bytes ≠ record.bytes := by
  obtain ⟨hlen, htarget, hkernel, hsafe, hregisters, hshared⟩ := stored_of_ok h
  refine ⟨hlen, hregisters, hshared, ?_⟩
  intro call' record' h' hne heq
  obtain ⟨_, htarget', hkernel', hsafe', hregisters', hshared'⟩ := stored_of_ok h'
  rw [heq] at htarget' hkernel' hsafe' hregisters' hshared'
  apply hne
  obtain ⟨target, kernelId, safePointId, registers, sharedMemory⟩ := call
  obtain ⟨target', kernelId', safePointId', registers', sharedMemory'⟩ := call'
  obtain rfl := CtxResumeTarget.code_inj (htarget'.symm.trans htarget)
  obtain rfl := UInt64.toNat_inj.mp (hkernel'.symm.trans hkernel)
  obtain rfl := UInt64.toNat_inj.mp (hsafe'.symm.trans hsafe)
  obtain rfl := ByteVec.ext (hregisters'.symm.trans hregisters)
  obtain rfl := ByteVec.ext (hshared'.symm.trans hshared)
  rfl

/-- Three bytes of registers and two of shared memory. -/
def fiveByteCall : CtxResumeCall :=
  ⟨.amdRocm, 5, 9, ⟨[7, 0, 8], by decide⟩, ⟨[6, 1], by decide⟩⟩

theorem ctxResumeRecord_self_describing_fiveByteCall :
    ∃ record, buildCtxResumeRecord fiveByteCall = .ok record ∧
      record.bytes.length = record.header.recordBytes ∧
      storedRegisterPayload record.bytes = [7, 0, 8] ∧
      storedSharedMemoryPayload record.bytes = [6, 1] := by
  obtain ⟨hlen, hregisters, hshared, _⟩ := ctxResumeRecord_self_describing fiveByteCall _ rfl
  exact ⟨_, rfl, hlen, hregisters, hshared⟩

end Concordia.Instrument
