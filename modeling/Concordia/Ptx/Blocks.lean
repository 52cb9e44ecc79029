import Concordia.Lib.Fallible
import Concordia.Ptx.BasicBlocks

/-!
# What normalisation produces

The loop of `normalize_basic_blocks::run` puts separators in front of every
statement after the first (`blocks`), and the saved indices are exactly where a
`ret` is, so that merging the returns is a map (`normalizeBody_eq`). All this is for a
`current_id` that does not wrap.
-/

namespace Concordia.Ptx

open Concordia.Lib List Nat Normalizer Statement

variable {α : Type}

/-! ## The statements of the loop -/

/-- The loop, as a recursion over the statements. -/
def blocks : TerminatorKind → Nat → List (Statement α) → List (Statement α)
  | _, _, [] => []
  | previous, id, x :: xs =>
    (separators previous id x).1 ++
      x :: blocks (isBlockTerminator x) (id + (separators previous id x).2) xs

/-- The `current_id` after it. -/
def lastId : TerminatorKind → Nat → List (Statement α) → Nat
  | _, id, [] => id
  | previous, id, x :: xs => lastId (isBlockTerminator x) (id + (separators previous id x).2) xs

section

variable (id : Nat) (l : Nat) (xs : List (Statement α))

variable {x : Statement α} (hx : x.isLabel = false)

include hx

theorem blocks_not : blocks .not id (x :: xs) = x :: blocks (isBlockTerminator x) id xs := by
  cases x <;> first | rfl | cases hx

theorem blocks_real :
    blocks .real id (x :: xs) = .label id :: x :: blocks (isBlockTerminator x) (id + 1) xs := by
  cases x <;> first | rfl | cases hx

theorem blocks_fake : blocks .fake id (x :: xs) =
    .bra id :: .label id :: x :: blocks (isBlockTerminator x) (id + 1) xs := by
  cases x <;> first | rfl | cases hx

end

theorem exists_of_isLabel {x : Statement α} (hx : x.isLabel = true) : ∃ l, x = .label l := by
  cases x with
  | label l => exact ⟨l, rfl⟩
  | _ => cases hx

/-- Where the returns are, when the list starts at `offset`. -/
def retIndices (offset : Nat) : List (Statement α) → List Nat
  | [] => []
  | x :: xs => (if x.isRet then [offset] else []) ++ retIndices (offset + 1) xs

theorem retIndices_append (offset : Nat) (l m : List (Statement α)) :
    retIndices offset (l ++ m) = retIndices offset l ++ retIndices (offset + l.length) m := by
  induction l generalizing offset with
  | nil => rfl
  | cons x l ih =>
    show _ ++ retIndices (offset + 1) (l ++ m) = (_ ++ _) ++ _
    rw [ih, append_assoc, length_cons, add_right_comm offset 1, add_assoc offset]

theorem length_retIndices (offset : Nat) (l : List (Statement α)) :
    (retIndices offset l).length = l.countP isRet := by
  induction l generalizing offset with
  | nil => rfl
  | cons x l ih =>
    rw [retIndices, length_append, ih, countP_cons, add_comm]
    cases x.isRet <;> rfl

theorem retIndices_separators (offset : Nat) (previous : TerminatorKind) (id : Nat)
    (x : Statement α) : retIndices offset (separators previous id x).1 = [] := by
  cases x <;> cases previous <;> rfl

theorem registered_le (previous : TerminatorKind) (id : Nat) (x : Statement α) :
    (separators previous id x).2 ≤ 1 := by
  cases x <;> cases previous <;> simp [separators]

/-- One round, for a statement that is not a `RetValue`. -/
theorem visit_eq {isKernel : Bool} {s : Normalizer α} {x : Statement α}
    (hx : x.isRetValue = false) (hroom : s.currentId + 1 < 2 ^ 32) :
    s.visit isKernel x = .ok
      { currentId := s.currentId + (separators s.previous s.currentId x).2
        result := s.result ++ ((separators s.previous s.currentId x).1 ++ [x])
        previous := isBlockTerminator x
        returnStatements := s.returnStatements ++
          if isKernel then []
          else retIndices s.result.length ((separators s.previous s.currentId x).1 ++ [x]) } := by
  have hid : (s.currentId + (separators s.previous s.currentId x).2) % 2 ^ 32 =
      s.currentId + (separators s.previous s.currentId x).2 :=
    mod_eq_of_lt ((Nat.add_le_add_left (registered_le ..) _).trans_lt hroom)
  rw [← hid, retIndices_append, retIndices_separators, nil_append]
  cases x with
  | retValue => cases hx
  | _ => cases isKernel <;> simp [visit, retIndices, isRet]

/-- The loop, for statements none of which is a `RetValue`. -/
theorem foldlM_visit (isKernel : Bool) {xs : List (Statement α)}
    (hxs : ∀ x ∈ xs, x.isRetValue = false) {s : Normalizer α}
    (hroom : s.currentId + xs.length < 2 ^ 32) :
    ∃ last, xs.foldlM (visit isKernel) s = .ok
      { currentId := lastId s.previous s.currentId xs
        result := s.result ++ blocks s.previous s.currentId xs
        previous := last
        returnStatements := s.returnStatements ++
          if isKernel then []
          else retIndices s.result.length (blocks s.previous s.currentId xs) } := by
  induction xs generalizing s with
  | nil =>
    exact ⟨s.previous, by cases isKernel <;> simp [lastId, blocks, retIndices, pure, Except.pure]⟩
  | cons x xs ih =>
    rw [length_cons] at hroom
    have hregistered := registered_le s.previous s.currentId x
    rw [foldlM_cons, visit_eq (hxs x mem_cons_self) (by omega)]
    obtain ⟨last, hlast⟩ := ih (fun y hy => hxs y (mem_cons_of_mem x hy))
      (s := ⟨s.currentId + (separators s.previous s.currentId x).2, _, _, _⟩) (by dsimp only; omega)
    refine ⟨last, hlast.trans ?_⟩
    have hresult : s.result ++ ((separators s.previous s.currentId x).1 ++ [x]) ++
        blocks (isBlockTerminator x) (s.currentId + (separators s.previous s.currentId x).2) xs =
        s.result ++ blocks s.previous s.currentId (x :: xs) := by
      simp [blocks]
    have hindices : retIndices s.result.length (blocks s.previous s.currentId (x :: xs)) =
        retIndices s.result.length ((separators s.previous s.currentId x).1 ++ [x]) ++
          retIndices (s.result ++ ((separators s.previous s.currentId x).1 ++ [x])).length
            (blocks (isBlockTerminator x) (s.currentId + (separators s.previous s.currentId x).2)
              xs) := by
      rw [length_append, ← retIndices_append, append_assoc]
      rfl
    simp only [hresult, hindices, lastId, append_assoc]
    cases isKernel <;> rfl

theorem not_isRetValue_of_visit {isKernel : Bool} {s s' : Normalizer α} {x : Statement α}
    (h : s.visit isKernel x = .ok s') : x.isRetValue = false := by
  cases x with
  | retValue => cases h
  | _ => rfl

/-- A `RetValue` in the loop is an error. -/
theorem not_isRetValue_of_foldlM {isKernel : Bool} {xs : List (Statement α)} {s s' : Normalizer α}
    (h : xs.foldlM (visit isKernel) s = .ok s') : ∀ x ∈ xs, x.isRetValue = false := by
  induction xs generalizing s with
  | nil => exact fun x hx => by cases hx
  | cons y xs ih =>
    rw [foldlM_cons] at h
    obtain ⟨t, hvisit, hrest⟩ := except_bind_eq_ok_iff.mp h
    intro x hx
    rcases mem_cons.mp hx with rfl | hx
    · exact not_isRetValue_of_visit hvisit
    · exact ih hrest x hx

/-! ## Merging the returns -/

/-- A return becomes a jump to the merged one. -/
def mergeReturn : Option Nat → Statement α → Statement α
  | some retBb, .ret _ => .bra retBb
  | _, x => x

def mergedBlock : Option Nat → List (Statement α)
  | some retBb => [.label retBb, .ret false]
  | none => []

@[simp] theorem mergeReturn_none (x : Statement α) : mergeReturn none x = x := by
  cases x <;> rfl

theorem map_mergeReturn_none (l : List (Statement α)) : l.map (mergeReturn none) = l :=
  (map_congr_left fun x _ => mergeReturn_none x).trans (map_id l)

theorem mergeReturn_of_not_isRet {merge : Option Nat} {x : Statement α} (h : x.isRet = false) :
    mergeReturn merge x = x := by
  cases merge <;> cases x <;> first | rfl | cases h

section

variable (merge : Option Nat) (l : Nat)

@[simp] theorem mergeReturn_label : mergeReturn merge (.label l : Statement α) = .label l := by
  cases merge <;> rfl

@[simp] theorem mergeReturn_bra : mergeReturn merge (.bra l : Statement α) = .bra l := by
  cases merge <;> rfl

end

/-- Redirecting at the saved indices is a map. -/
theorem foldlM_redirectReturn (retBb : Nat) (before l after : List (Statement α)) :
    (retIndices before.length l).foldlM (redirectReturn retBb) (before ++ l ++ after) =
      .ok (before ++ l.map (mergeReturn (some retBb)) ++ after) := by
  induction l generalizing before with
  | nil => rfl
  | cons x l ih =>
    have hnext := ih (before ++ [mergeReturn (some retBb) x])
    rw [length_append] at hnext
    cases hx : x.isRet with
    | false =>
      rw [mergeReturn_of_not_isRet hx] at hnext
      simpa [retIndices, hx, mergeReturn_of_not_isRet hx] using hnext
    | true =>
      have hbra : mergeReturn (some retBb) x = .bra retBb := by
        cases x <;> first | rfl | cases hx
      rw [hbra] at hnext
      have hset : redirectReturn retBb (before ++ (x :: l) ++ after) before.length =
          .ok (before ++ [.bra retBb] ++ l ++ after) := by
        simp [redirectReturn]
      simp only [retIndices, hx, if_true, singleton_append, foldlM_cons, hset]
      refine hnext.trans ?_
      simp [hbra]

/-! ## The body -/

/-- Whether returns are merged, and where. -/
def merge (isKernel : Bool) (id : Nat) (tail : List (Statement α)) : Option Nat :=
  if isKernel = false ∧ (blocks .not id tail).countP isRet > 1 then
    some (lastId .not id tail)
  else none

theorem eq_lastId_of_merge {isKernel : Bool} {id retBb : Nat} {tail : List (Statement α)}
    (h : merge isKernel id tail = some retBb) : retBb = lastId .not id tail :=
  (Option.some.inj (Option.ite_none_right_eq_some.mp h).2).symm

/-- What comes before the statements of the loop. -/
def opening (currentId : Nat) : Statement α → List (Statement α)
  | .label _ => []
  | first => [.label currentId, first]

/-- The `current_id` at which the loop starts. -/
def startId (currentId : Nat) : Statement α → Nat
  | .label _ => currentId
  | _ => currentId + 1

/-- The body that comes out. -/
def normalized (isKernel : Bool) (currentId : Nat) (first : Statement α)
    (tail : List (Statement α)) :
    List (Statement α) :=
  let id := startId currentId first
  opening currentId first ++ (blocks .not id tail).map (mergeReturn (merge isKernel id tail)) ++
    mergedBlock (merge isKernel id tail)

theorem normalized_of_not_isLabel (isKernel : Bool) (currentId : Nat)
    (tail : List (Statement α)) {first : Statement α} (hfirst : first.isLabel = false) :
    normalized isKernel currentId first tail = .label currentId :: first ::
      ((blocks .not (currentId + 1) tail).map
          (mergeReturn (merge isKernel (currentId + 1) tail)) ++
        mergedBlock (merge isKernel (currentId + 1) tail)) := by
  cases first with
  | label l => cases hfirst
  | _ => rfl

theorem start_eq {currentId : Nat} (hroom : currentId + 1 < 2 ^ 32) (first : Statement α) :
    start currentId (some first) =
      ⟨startId currentId first, opening currentId first, .not, []⟩ := by
  cases first <;> simp only [start, startId, opening, mod_eq_of_lt hroom]

theorem convert_eq (isKernel : Bool) (id : Nat) (start tail : List (Statement α))
    (last : TerminatorKind) (hroom : lastId .not id tail + 1 < 2 ^ 32) :
    ∃ id', lastId .not id tail ≤ id' ∧ id' ≤ lastId .not id tail + 1 ∧
      convertFromMultipleReturnsToSingleReturn
      { currentId := lastId .not id tail
        result := start ++ blocks .not id tail
        previous := last
        returnStatements :=
          if isKernel then [] else retIndices start.length (blocks .not id tail) } =
      .ok (id', start ++ (blocks .not id tail).map (mergeReturn (merge isKernel id tail)) ++
        mergedBlock (merge isKernel id tail)) := by
  by_cases hmany : isKernel = false ∧ (blocks .not id tail).countP isRet > 1
  · obtain ⟨rfl, hcount⟩ := hmany
    have hmerge : merge false id tail = some (lastId .not id tail) := if_pos ⟨rfl, hcount⟩
    refine ⟨lastId .not id tail + 1, le_succ _, le_refl _, ?_⟩
    rw [convertFromMultipleReturnsToSingleReturn, if_neg Bool.false_ne_true, length_retIndices,
      if_pos hcount, hmerge]
    dsimp only
    rw [foldlM_redirectReturn, mod_eq_of_lt hroom]
    rfl
  · have hmerge : merge isKernel id tail = none := if_neg hmany
    refine ⟨lastId .not id tail, le_refl _, le_succ _, ?_⟩
    have hfew :
        ¬ (if isKernel then [] else retIndices start.length (blocks .not id tail)).length > 1 := by
      cases isKernel with
      | true => simp
      | false =>
        rw [if_neg Bool.false_ne_true, length_retIndices]
        exact fun hcount => hmany ⟨rfl, hcount⟩
    rw [convertFromMultipleReturnsToSingleReturn, if_neg hfew, hmerge]
    simp [mergedBlock, map_mergeReturn_none]

/-- The loop registers at most one label for a statement. -/
theorem lastId_bounds (previous : TerminatorKind) (id : Nat) (xs : List (Statement α)) :
    id ≤ lastId previous id xs ∧ lastId previous id xs ≤ id + xs.length := by
  induction xs generalizing previous id with
  | nil => exact ⟨le_refl id, le_refl id⟩
  | cons x xs ih =>
    have hregistered := registered_le previous id x
    have hrest := ih (isBlockTerminator x) (id + (separators previous id x).2)
    rw [lastId, length_cons]
    omega

/-- Without a `RetValue` after the first statement the body is normalised. -/
theorem normalizeBody_eq (isKernel : Bool) (currentId : Nat) (first : Statement α)
    {tail : List (Statement α)} (hroom : currentId + tail.length + 2 < 2 ^ 32)
    (htail : ∀ x ∈ tail, x.isRetValue = false) :
    ∃ id', currentId ≤ id' ∧ id' ≤ currentId + tail.length + 2 ∧
      normalizeBody currentId isKernel (first :: tail) =
        .ok (id', normalized isKernel currentId first tail) := by
  have hid : currentId ≤ startId currentId first ∧ startId currentId first ≤ currentId + 1 := by
    cases first <;> simp [startId]
  have hlast := lastId_bounds .not (startId currentId first) tail
  obtain ⟨last, hfold⟩ := foldlM_visit isKernel htail
    (s := ⟨startId currentId first, opening currentId first, .not, []⟩) (by dsimp only; omega)
  obtain ⟨id', hle, hlt, hconvert⟩ := convert_eq isKernel (startId currentId first)
    (opening currentId first) tail last (by omega)
  refine ⟨id', by omega, by omega, ?_⟩
  show (tail.foldlM _ (start currentId (some first)) >>= _) = _
  rw [start_eq (by omega), hfold]
  exact hconvert

variable {currentId id' : Nat} {tail out : List (Statement α)}

theorem not_isRetValue_of_normalizeBody {isKernel : Bool} {first : Statement α}
    (h : normalizeBody currentId isKernel (first :: tail) = .ok (id', out)) :
    ∀ x ∈ tail, x.isRetValue = false := by
  obtain ⟨s, hfold, _⟩ := except_bind_eq_ok_iff.mp h
  exact not_isRetValue_of_foldlM hfold

/-- **What comes out.** A body is normalised unless there is a `RetValue` after its
first statement. -/
theorem normalizeBody_eq_ok_iff {isKernel : Bool} {first : Statement α}
    (hroom : currentId + tail.length + 2 < 2 ^ 32) :
    (∃ id', normalizeBody currentId isKernel (first :: tail) = .ok (id', out)) ↔
      (∀ x ∈ tail, x.isRetValue = false) ∧ out = normalized isKernel currentId first tail := by
  constructor
  · rintro ⟨id', h⟩
    have htail := not_isRetValue_of_normalizeBody h
    obtain ⟨id'', _, _, hnormalized⟩ := normalizeBody_eq isKernel _ first hroom htail
    exact ⟨htail, (Prod.mk.inj (Except.ok.inj (h.symm.trans hnormalized))).2⟩
  · rintro ⟨htail, rfl⟩
    obtain ⟨id', _, _, hnormalized⟩ := normalizeBody_eq isKernel _ first hroom htail
    exact ⟨id', hnormalized⟩

end Concordia.Ptx
