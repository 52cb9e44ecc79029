import Mathlib

/-!
# Append-only files that may refuse a write

A `File` is its bytes so far and, when the device is about to fail, how many
more bytes it will take and the error it then reports. `writeAll` appends a
buffer, or appends what the device still takes and reports the error. Two
writes in a row are one write of the joined buffer (`writeAll_bind_writeAll`),
so a sequence of small writes is reasoned about as a single one that may fail
after any number of bytes.
-/

namespace Concordia.Lib

/-- The device takes `room` more bytes and then reports `message`. -/
structure WriteFault where
  room : Nat
  message : String
  deriving DecidableEq, Repr

/-- An append-only file. -/
structure File (B : Type) where
  bytes : List B
  fault : Option WriteFault
  deriving DecidableEq, Repr

/-- Computations on a file that report a failed write and keep what was
written. -/
abbrev WriteM (B : Type) := ExceptT String (StateM (File B))

/-- Append the whole buffer, or as much as the device takes. -/
def writeAll {B : Type} (buf : List B) : WriteM B Unit := ExceptT.mk fun file =>
  match file.fault with
  | none => (.ok (), { file with bytes := file.bytes ++ buf })
  | some fault =>
    if buf.length ≤ fault.room then
      (.ok (), { bytes := file.bytes ++ buf
                 fault := some { fault with room := fault.room - buf.length } })
    else
      (.error fault.message, { bytes := file.bytes ++ buf.take fault.room
                               fault := some { fault with room := 0 } })

namespace WriteM

variable {B : Type}

/-- Run a file computation. -/
def exec (m : WriteM B Unit) (file : File B) : Except String Unit × File B :=
  (ExceptT.run m).run file

theorem exec_bind (m k : WriteM B Unit) (file : File B) :
    (m >>= fun _ => k).exec file =
      match m.exec file with
      | (.ok _, file') => k.exec file'
      | (.error e, file') => (.error e, file') := by
  simp only [exec, ExceptT.run_bind, StateT.run_bind]
  cases h : (ExceptT.run m).run file with
  | mk result file' =>
    cases result with
    | ok u => rfl
    | error e => rfl

theorem ext {m k : WriteM B Unit} (h : ∀ file, m.exec file = k.exec file) : m = k := by
  funext file
  exact h file

@[simp] theorem exec_pure (file : File B) : (pure () : WriteM B Unit).exec file = (.ok (), file) :=
  rfl

end WriteM

open WriteM List

variable {B : Type} {file : File B}

theorem exec_writeAll_of_none (h : file.fault = none) (buf : List B) :
    (writeAll buf).exec file = (.ok (), { file with bytes := file.bytes ++ buf }) := by
  show (match file.fault with | none => _ | some fault => _) = _
  rw [h]

theorem exec_writeAll_of_le {fault : WriteFault} (h : file.fault = some fault) {buf : List B}
    (hle : buf.length ≤ fault.room) :
    (writeAll buf).exec file =
      (.ok (), { bytes := file.bytes ++ buf
                 fault := some { fault with room := fault.room - buf.length } }) := by
  show (match file.fault with | none => _ | some fault => _) = _
  rw [h]
  exact if_pos hle

theorem exec_writeAll_of_lt {fault : WriteFault} (h : file.fault = some fault) {buf : List B}
    (hlt : fault.room < buf.length) :
    (writeAll buf).exec file =
      (.error fault.message, { bytes := file.bytes ++ buf.take fault.room
                               fault := some { fault with room := 0 } }) := by
  show (match file.fault with | none => _ | some fault => _) = _
  rw [h]
  exact if_neg (by omega)

@[simp] theorem writeAll_nil : writeAll ([] : List B) = pure () := by
  apply WriteM.ext
  intro file
  cases hf : file.fault with
  | none => simp [exec_writeAll_of_none hf]
  | some fault =>
    rw [exec_writeAll_of_le hf (Nat.zero_le _), exec_pure]
    cases file
    simp_all

/-- Two writes in a row are one write of the joined buffer. -/
theorem writeAll_bind_writeAll (a b : List B) :
    (writeAll a >>= fun _ => writeAll b) = writeAll (a ++ b) := by
  apply WriteM.ext
  intro file
  rw [exec_bind]
  cases hf : file.fault with
  | none =>
    have hf' : ({ file with bytes := file.bytes ++ a } : File B).fault = none := hf
    rw [exec_writeAll_of_none hf, exec_writeAll_of_none hf]
    simp only
    rw [exec_writeAll_of_none hf', append_assoc]
  | some fault =>
    by_cases ha : a.length ≤ fault.room
    · rw [exec_writeAll_of_le hf ha]
      simp only
      by_cases hb : b.length ≤ fault.room - a.length
      · rw [exec_writeAll_of_le rfl hb, exec_writeAll_of_le hf (by simp; omega)]
        simp [Nat.sub_sub]
      · -- the device gives up inside the second buffer
        rw [exec_writeAll_of_lt rfl (by simpa using hb), exec_writeAll_of_lt hf (by simp; omega)]
        simp [take_append, take_of_length_le ha]
    · rw [exec_writeAll_of_lt hf (by omega), exec_writeAll_of_lt hf (by simp; omega)]
      simp only
      rw [take_append_of_le_length (by omega)]

/-- What a write leaves behind: all of the buffer exactly when it reports
success, else the part the device had room for. -/
theorem exec_writeAll_cases (buf : List B) (file : File B) :
    (((writeAll buf).exec file).1 = .ok () ∧
        ((writeAll buf).exec file).2.bytes = file.bytes ++ buf) ∨
      (∃ fault, file.fault = some fault ∧ fault.room < buf.length ∧
        ((writeAll buf).exec file).1 = .error fault.message ∧
        ((writeAll buf).exec file).2.bytes = file.bytes ++ buf.take fault.room) := by
  cases hf : file.fault with
  | none => exact .inl (by simp [exec_writeAll_of_none hf])
  | some fault =>
    by_cases hle : buf.length ≤ fault.room
    · exact .inl (by simp [exec_writeAll_of_le hf hle])
    · have hlt : fault.room < buf.length := by omega
      exact .inr ⟨fault, rfl, hlt, by simp [exec_writeAll_of_lt hf hlt]⟩

end Concordia.Lib
