import Mathlib

/-!
# Self-delimiting frames and their scanner

A log is a concatenation of frames. A `Framing` packages an encoder with the
one-frame parser that reads it back: the parser undoes the encoder whatever
follows, accepts nothing but encodings, and stops at every torn frame. From
these laws alone:

* scanning undoes concatenated encoding (`scan_encodeAll`);
* a log cut anywhere scans to the frames that end inside the cut
  (`scan_take`);
* what a scan returns is characterised by the bytes alone
  (`scan_eq_some_iff`): the returned frames are a prefix of the input and the
  parser stops right after them.
-/

namespace Concordia.Lib

open List Nat

/-- One parser step: a frame and what follows it, a clean stop, or an abort of
the whole scan. -/
inductive Scan (R B : Type) where
  | item (frame : R) (rest : List B)
  | stop
  | abort
  deriving DecidableEq, Repr

/-- The scan loop: collect frames until the parser stops. Every frame consumes
input, so `input.length + 1` rounds are enough (`scan_eq`). -/
def scanLoop {R B : Type} (next : List B → Scan R B) : Nat → List B → Option (List R)
  | 0, _ => some []
  | fuel + 1, input =>
    match next input with
    | .item frame rest => (scanLoop next fuel rest).map (frame :: ·)
    | .stop => some []
    | .abort => none

/-- Collect every frame at the front of `input`; `none` is an aborted scan. -/
def scan {R B : Type} (next : List B → Scan R B) (input : List B) : Option (List R) :=
  scanLoop next (input.length + 1) input

/-- An encoder and the parser of one frame, with the laws that make the
concatenation of frames a self-delimiting log. -/
structure Framing (R B : Type) where
  encode : R → List B
  next : List B → Scan R B
  next_encode : ∀ r rest, next (encode r ++ rest) = .item r rest
  encode_of_next : ∀ input r rest, next input = .item r rest → input = encode r ++ rest
  encode_pos : ∀ r, 0 < (encode r).length
  next_torn : ∀ r n, n < (encode r).length → next ((encode r).take n) = .stop

namespace Framing

variable {R B : Type} (F : Framing R B)

/-- The bytes of a whole log. -/
def encodeAll (L : List R) : List B := L.flatMap F.encode

@[simp] theorem encodeAll_nil : F.encodeAll [] = [] := rfl

@[simp] theorem encodeAll_cons (r : R) (L : List R) :
    F.encodeAll (r :: L) = F.encode r ++ F.encodeAll L := rfl

@[simp] theorem encodeAll_append (L M : List R) :
    F.encodeAll (L ++ M) = F.encodeAll L ++ F.encodeAll M := by
  simp [encodeAll]

/-- The parser stops on the empty input: it is the empty cut of any frame. -/
theorem next_nil [Nonempty R] : F.next [] = .stop := by
  obtain ⟨r⟩ := ‹Nonempty R›
  simpa using F.next_torn r 0 (F.encode_pos r)

theorem next_item_length {input rest : List B} {r : R} (h : F.next input = .item r rest) :
    rest.length < input.length := by
  have hpos := F.encode_pos r
  rw [F.encode_of_next input r rest h, length_append]
  omega

/-- More fuel than input changes nothing. -/
theorem scanLoop_fuel (fuel : Nat) (input : List B) (h : input.length < fuel) :
    scanLoop F.next fuel input = scan F.next input := by
  -- both sides are compared with the loop one round shorter, so the induction
  -- is on the fuel with the other fuel kept general
  have key : ∀ (a b : Nat) (x : List B), x.length < a → x.length < b →
      scanLoop F.next a x = scanLoop F.next b x := by
    intro a
    induction a with
    | zero => intro b x ha; omega
    | succ a ih =>
      intro b x ha hb
      cases b with
      | zero => omega
      | succ b =>
        simp only [scanLoop]
        cases hn : F.next x with
        | stop => rfl
        | abort => rfl
        | item r rest =>
          have hlt := F.next_item_length hn
          simp only [ih b rest (by omega) (by omega)]
  exact key fuel (input.length + 1) input h (by omega)

/-- The scan as its own recursion, free of fuel. -/
theorem scan_eq (input : List B) :
    scan F.next input = match F.next input with
      | .item r rest => (scan F.next rest).map (r :: ·)
      | .stop => some []
      | .abort => none := by
  rw [scan, scanLoop]
  cases hn : F.next input with
  | stop => rfl
  | abort => rfl
  | item r rest => simp only [F.scanLoop_fuel _ rest (F.next_item_length hn)]

theorem scan_of_stop {input : List B} (h : F.next input = .stop) :
    scan F.next input = some [] := by
  rw [scan_eq, h]

/-- Whole frames in front are returned in front. -/
theorem scan_encodeAll_append (L : List R) (rest : List B) :
    scan F.next (F.encodeAll L ++ rest) = (scan F.next rest).map (L ++ ·) := by
  induction L with
  | nil => simp
  | cons r L ih =>
    rw [encodeAll_cons, append_assoc, scan_eq, F.next_encode]
    simp only [ih, Option.map_map]
    rfl

/-- Scanning undoes encoding. -/
theorem scan_encodeAll [Nonempty R] (L : List R) : scan F.next (F.encodeAll L) = some L := by
  have h := F.scan_encodeAll_append L []
  rw [append_nil, F.scan_of_stop F.next_nil] at h
  simpa using h

/-- What a scan returns, in terms of the bytes: the frames' own encoding, and
then something the parser stops at. -/
theorem scan_eq_some_iff (input : List B) (L : List R) :
    scan F.next input = some L ↔ ∃ rest, input = F.encodeAll L ++ rest ∧ F.next rest = .stop := by
  constructor
  · intro h
    induction L generalizing input with
    | nil =>
      refine ⟨input, rfl, ?_⟩
      rw [scan_eq] at h
      cases hn : F.next input with
      | stop => rfl
      | abort => simp [hn] at h
      | item r rest => simp [hn] at h
    | cons r L ih =>
      rw [scan_eq] at h
      cases hn : F.next input with
      | stop => simp [hn] at h
      | abort => simp [hn] at h
      | item r' tail =>
        simp only [hn, Option.map_eq_some_iff, List.cons.injEq] at h
        obtain ⟨L', hL, rfl, rfl⟩ := h
        obtain ⟨rest, htail, hstop⟩ := ih tail hL
        refine ⟨rest, ?_, hstop⟩
        rw [F.encode_of_next input r' tail hn, htail, encodeAll_cons, append_assoc]
  · rintro ⟨rest, rfl, hstop⟩
    simp [scan_encodeAll_append, F.scan_of_stop hstop]

/-! ## Cut logs -/

/-- The frames of `L` that end at or before byte `n`, where the first frame
starts at byte `pos`. -/
def endingBy (n : Nat) : Nat → List R → List R
  | _, [] => []
  | pos, r :: L =>
    let stop := pos + (F.encode r).length
    if stop ≤ n then r :: endingBy n stop L else endingBy n stop L

theorem endingBy_eq_nil_of_lt {n pos : Nat} (h : n < pos) (L : List R) :
    F.endingBy n pos L = [] := by
  induction L generalizing pos with
  | nil => rfl
  | cons r L ih =>
    have hlong : ¬ pos + (F.encode r).length ≤ n := by omega
    simp only [endingBy, if_neg hlong]
    exact ih (by omega)

/-- Only differences of positions matter. -/
theorem endingBy_shift (n pos d : Nat) (L : List R) :
    F.endingBy (n + d) (pos + d) L = F.endingBy n pos L := by
  induction L generalizing pos with
  | nil => rfl
  | cons r L ih =>
    have hpos : pos + d + (F.encode r).length = pos + (F.encode r).length + d := by omega
    simp only [endingBy, hpos, add_le_add_iff_right, ih]

/-- A cut log is whole frames followed by a tail shorter than a frame: nothing,
or a proper prefix of the frame the cut falls in. -/
theorem take_encodeAll (L : List R) (n : Nat) :
    ∃ tail, (F.encodeAll L).take n = F.encodeAll (F.endingBy n 0 L) ++ tail ∧
      (tail = [] ∨ ∃ r ∈ L, ∃ m, 0 < m ∧ m < (F.encode r).length ∧
        tail = (F.encode r).take m) := by
  induction L generalizing n with
  | nil => exact ⟨[], by simp [endingBy]⟩
  | cons r L ih =>
    by_cases hfit : (F.encode r).length ≤ n
    · -- the first frame survives the cut
      obtain ⟨m, rfl⟩ := Nat.exists_eq_add_of_le hfit
      obtain ⟨tail, htake, htail⟩ := ih m
      refine ⟨tail, ?_, ?_⟩
      · have hshift := F.endingBy_shift m 0 (F.encode r).length L
        rw [zero_add, add_comm m] at hshift
        simp only [endingBy, zero_add, if_pos hfit, hshift, encodeAll_cons,
          append_assoc, take_length_add_append, htake]
      · rcases htail with rfl | ⟨r', hr', rest⟩
        · exact .inl rfl
        · exact .inr ⟨r', mem_cons_of_mem r hr', rest⟩
    · -- the cut falls inside the first frame
      have hlt : n < (F.encode r).length := by omega
      have hnil : F.endingBy n 0 (r :: L) = [] := by
        simp only [endingBy, zero_add, if_neg hfit]
        exact F.endingBy_eq_nil_of_lt hlt L
      refine ⟨(F.encode r).take n, ?_, ?_⟩
      · rw [hnil, encodeAll_cons, take_append_of_le_length (by omega)]
        rfl
      · rcases Nat.eq_zero_or_pos n with rfl | hpos
        · exact .inl rfl
        · exact .inr ⟨r, mem_cons_self, n, hpos, hlt, rfl⟩

/-- The frame a position falls in, and the frames before it. -/
theorem exists_frame_at (L : List R) (pos : Nat) (h : pos < (F.encodeAll L).length) :
    ∃ r Z, L = F.endingBy pos 0 L ++ r :: Z ∧ (F.encodeAll (F.endingBy pos 0 L)).length ≤ pos ∧
      pos < (F.encodeAll (F.endingBy pos 0 L)).length + (F.encode r).length := by
  induction L generalizing pos with
  | nil => simp at h
  | cons r L ih =>
    rw [encodeAll_cons, length_append] at h
    by_cases hfit : (F.encode r).length ≤ pos
    · obtain ⟨m, rfl⟩ := Nat.exists_eq_add_of_le hfit
      have hcons : F.endingBy ((F.encode r).length + m) 0 (r :: L) = r :: F.endingBy m 0 L := by
        have hshift := F.endingBy_shift m 0 (F.encode r).length L
        rw [zero_add, add_comm m] at hshift
        simp only [endingBy, zero_add, if_pos hfit, hshift]
      obtain ⟨r', Z, hL, hstart, hend⟩ := ih m (by omega)
      refine ⟨r', Z, ?_, ?_, ?_⟩
      · rw [hcons, cons_append, ← hL]
      · rw [hcons, encodeAll_cons, length_append]
        omega
      · rw [hcons, encodeAll_cons, length_append]
        omega
    · have hnil : F.endingBy pos 0 (r :: L) = [] := by
        simp only [endingBy, zero_add, if_neg hfit]
        exact F.endingBy_eq_nil_of_lt (by omega) L
      refine ⟨r, L, ?_, ?_, ?_⟩
      · rw [hnil, nil_append]
      · simp [hnil]
      · rw [hnil, encodeAll_nil, length_nil]
        omega

/-- **Prefix durability.** A log cut at any byte scans to the frames that end
inside the cut. -/
theorem scan_take [Nonempty R] (L : List R) (n : Nat) :
    scan F.next ((F.encodeAll L).take n) = some (F.endingBy n 0 L) := by
  obtain ⟨tail, htake, htail⟩ := F.take_encodeAll L n
  have hstop : F.next tail = .stop := by
    rcases htail with rfl | ⟨r, _, m, _, hm, rfl⟩
    · exact F.next_nil
    · exact F.next_torn r m hm
  rw [htake, F.scan_eq_some_iff]
  exact ⟨tail, rfl, hstop⟩

end Framing

end Concordia.Lib
