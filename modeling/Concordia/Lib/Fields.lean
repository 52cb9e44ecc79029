import Concordia.Lib.LittleEndian
import Concordia.Lib.Overwrite

/-!
# Packed records of fixed-width fields

A packed record writes its fields one after the other, each as a little-endian
number of a fixed width, with no padding. A field is read back from the bytes
between its offset and its end, whatever follows the record (`ofLe_field`).
-/

namespace Concordia.Lib

open LittleEndian List

/-- Fields, each a width in bytes and a value, one after the other. -/
def pack (fields : List (Nat × Nat)) : List UInt8 := fields.flatMap fun f => toLe f.1 f.2

/-- The bytes before field `k`. -/
def fieldOffset (fields : List (Nat × Nat)) (k : Nat) : Nat :=
  ((fields.take k).map Prod.fst).sum

theorem length_pack (fields : List (Nat × Nat)) :
    (pack fields).length = (fields.map Prod.fst).sum := by
  simp [pack, length_flatMap]

/-- The middle of three pieces. -/
theorem slice_middle {B : Type} (front middle back : List B) {start stop : Nat}
    (hstart : start = front.length) (hstop : stop = start + middle.length) :
    slice (front ++ (middle ++ back)) start stop = middle := by
  subst hstart hstop
  rw [slice, take_length_add_append, drop_left', take_left']
  · rfl
  · rfl

/-- A field is read back modulo its width. -/
theorem ofLe_field {fields : List (Nat × Nat)} {k width value : Nat}
    (hk : fields[k]? = some (width, value)) (rest : List UInt8) :
    ofLe (slice (pack fields ++ rest) (fieldOffset fields k) (fieldOffset fields k + width)) =
      value % 256 ^ width := by
  obtain ⟨hlt, hget⟩ := List.getElem?_eq_some_iff.mp hk
  have hsplit : fields = fields.take k ++ (width, value) :: fields.drop (k + 1) := by
    rw [← hget, ← List.drop_eq_getElem_cons hlt, List.take_append_drop]
  have hpack : pack fields ++ rest =
      pack (fields.take k) ++ (toLe width value ++ (pack (fields.drop (k + 1)) ++ rest)) := by
    conv_lhs => rw [hsplit]
    simp [pack]
  have hfront : fieldOffset fields k = (pack (fields.take k)).length := (length_pack _).symm
  rw [hpack, slice_middle _ _ _ hfront (by rw [length_toLe])]
  exact ofLe_toLe width value

end Concordia.Lib
