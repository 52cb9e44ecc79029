import Mathlib

/-!
# PTX text inside a binary

`extract_ptx_from_offset_improved` scans from an offset over what looks like PTX text and
returns it trimmed. It looks at no more than 500,000 bytes (`extract_text_iff`). Texts are
lists of ASCII bytes.
-/

namespace Concordia.Host.PtxText

open List PtxText

def ascii (s : String) : List UInt8 := s.toList.map fun c => c.toNat.toUInt8

/-- `is_ascii_graphic`, a blank, a tab or a line break. -/
def isText (b : UInt8) : Bool := (33 ≤ b && b ≤ 126) || b == 32 || b == 10 || b == 13 || b == 9

/-- What the sliding window counts. -/
def isBinary (b : UInt8) : Bool := b > 127 || (b < 32 && b != 10 && b != 13 && b != 9 && b != 0)

/-- ASCII white space. -/
def isSpace (b : UInt8) : Bool := b == 32 || (9 ≤ b && b ≤ 13)

def trim (s : List UInt8) : List UInt8 := (s.dropWhile isSpace).rdropWhile isSpace

theorem length_trim_le (s : List UInt8) : (trim s).length ≤ s.length :=
  (IsPrefix.length_le <| rdropWhile_prefix _ _).trans (dropWhile_suffix _).length_le

/-- The most bytes that are looked at. -/
def limit : Nat := 500000

/-- The loop variables. -/
structure Scan where
  stop : Nat
  nulls : Nat
  lastValidEnd : Nat
  foundTarget : Bool
  foundEntry : Bool
  braceDepth : Nat

/-- The marker is at this position, and the file goes on after eight bytes. -/
def markerAt (binary : List UInt8) (pos : Nat) (marker : String) : Bool :=
  pos + 8 < binary.length && (ascii marker).isPrefixOf ((binary.drop pos).take 8)

/-- One round of the loop, and whether it goes on. -/
def step (binary : List UInt8) (start : Nat) (s : Scan) : Scan × Bool :=
  let byte := binary.getD s.stop 0
  let s := { s with nulls := if byte = 0 then s.nulls + 1 else 0 }
  if s.nulls > 3 then (s, false)
  else
    let s :=
      if byte = 123 then { s with braceDepth := s.braceDepth + 1 }
      else if byte = 125 then
        { s with
          braceDepth := s.braceDepth - 1
          lastValidEnd :=
            if s.foundEntry && s.braceDepth - 1 == 0 then s.stop + 1 else s.lastValidEnd }
      else s
    let s := { s with
      foundTarget := s.foundTarget || markerAt binary s.stop ".target "
      foundEntry := s.foundEntry || markerAt binary s.stop ".entry " ||
        markerAt binary s.stop ".func " }
    let window := (binary.drop (s.stop - 50)).take 50
    if s.stop > start + 50 && window.countP isBinary > window.length * 3 / 10 then (s, false)
    else
      ({ s with
          lastValidEnd := if isText byte && s.foundTarget then s.stop + 1 else s.lastValidEnd
          stop := s.stop + 1 }, true)

/-- The loop, with the bytes left to look at. -/
def scan (binary : List UInt8) (start : Nat) : Nat → Scan → Scan
  | 0, s => s
  | left + 1, s =>
    if (step binary start s).2 then scan binary start left (step binary start s).1
    else (step binary start s).1

def extractPtxFromOffsetImproved (binary : List UInt8) (start : Nat) : Option (List UInt8) :=
  let s := scan binary start (min (binary.length - start) limit) ⟨start, 0, start, false, false, 0⟩
  let stop := if s.foundTarget && s.lastValidEnd > start then s.lastValidEnd else s.stop
  if stop ≤ start then none
  else
    let cleaned := ((binary.drop start).take (stop - start)).filter fun b => b != 0 && isText b
    if (trim cleaned).length < 50 then none else some (trim cleaned)

/-! ## A text in a binary -/

/-- A text with bytes before it, at least eight NULs after it, and more. -/
structure Embedded where
  before : List UInt8
  text : List UInt8
  nulls : Nat
  rest : List UInt8
  eight_le : 8 ≤ nulls
  printable : ∀ b ∈ text, isText b = true
  version : ascii ".version" <+: text
  target : ascii ".target " <:+: text
  fifty_le : 50 ≤ (trim text).length

namespace Embedded

variable (e : Embedded)

def binary : List UInt8 := e.before ++ (e.text ++ (replicate e.nulls 0 ++ e.rest))

def start : Nat := e.before.length

variable {e} {s : Scan} {i : Nat}

theorem getD_binary (hi : i < e.text.length) :
    e.binary.getD (e.start + i) 0 = e.text.get ⟨i, hi⟩ := by
  simp [binary, start, getD_eq_getElem?_getD, getElem?_append_right,
    getElem?_append_left hi, getElem?_eq_getElem hi]

theorem getD_null (hi : i < 8) : e.binary.getD (e.start + (e.text.length + i)) 0 = 0 := by
  have hlt : i < e.nulls := hi.trans_le e.eight_le
  have hnull : (replicate e.nulls (0 : UInt8) ++ e.rest)[i]? = some 0 := by
    rw [getElem?_append_left (by simpa using hlt), getElem?_replicate_of_lt hlt]
  simp [binary, start, getD_eq_getElem?_getD, getElem?_append_right, hnull]

theorem not_isBinary {b : UInt8} (h : isText b = true) : isBinary b = false := by
  revert b
  decide +kernel

/-- While in the text, the window has no binary byte. -/
theorem window (hi : i ≤ e.text.length) (h50 : 50 ≤ i) :
    ((e.binary.drop (e.start + i - 50)).take 50).countP isBinary = 0 := by
  have hdrop : (e.binary.drop (e.start + i - 50)).take 50 = (e.text.drop (i - 50)).take 50 := by
    rw [Nat.add_sub_assoc h50, binary, start, drop_append, drop_of_length_le (by simp),
      nil_append, Nat.add_sub_cancel_left, drop_append_of_le_length (by omega),
      take_append_of_le_length (by rw [length_drop]; omega)]
  rw [hdrop, countP_eq_zero]
  intro b hb
  simp [not_isBinary (e.printable b (mem_of_mem_drop (mem_of_mem_take hb)))]

/-- The state inside the text. -/
structure Inside (e : Embedded) (i : Nat) (s : Scan) : Prop where
  stop : s.stop = e.start + i
  nulls : s.nulls = 0
  lastValidEnd : s.foundTarget = true → s.lastValidEnd = e.start + i
  found : ∀ j < i, markerAt e.binary (e.start + j) ".target " = true → s.foundTarget = true

/-- A byte of the text. -/
theorem Inside.step (h : Inside e i s) (hi : i < e.text.length) :
    (step e.binary e.start s).2 = true ∧
      Inside e (i + 1) (step e.binary e.start s).1 := by
  have hbyte := getD_binary hi
  have htext := e.printable _ (e.text.get_mem ⟨i, hi⟩)
  generalize e.text.get ⟨i, hi⟩ = byte at hbyte htext
  have hzero : byte ≠ 0 := by
    rintro rfl
    cases htext
  have hwindow : ¬(e.start + i > e.start + 50 ∧ ((e.binary.drop (e.start + i - 50)).take 50).countP
      isBinary > ((e.binary.drop (e.start + i - 50)).take 50).length * 3 / 10) := by
    rintro ⟨h50, hcount⟩
    rw [window (by omega) (by omega)] at hcount
    omega
  obtain ⟨hstop, hnulls, hlast, hfound⟩ := h
  unfold PtxText.step
  simp only [hstop, hbyte, hzero, htext, if_false]
  constructor
  · grind
  · constructor <;> grind

theorem Inside.scan (h : Inside e i s) (n left : Nat) (hn : i + n ≤ e.text.length) :
    ∃ s', Inside e (i + n) s' ∧
      scan e.binary e.start (n + left) s = scan e.binary e.start left s' := by
  induction n generalizing i s with
  | zero => exact ⟨s, h, by rw [Nat.zero_add]⟩
  | succ n ih =>
    obtain ⟨hgo, hnext⟩ := h.step (by omega)
    obtain ⟨s', hs', hscan⟩ := ih hnext (by omega)
    refine ⟨s', by rwa [show i + (n + 1) = i + 1 + n by omega], ?_⟩
    rw [show n + 1 + left = n + left + 1 by omega, scan, if_pos hgo, hscan]

/-- The NULs keep the end that was found, up to the fourth, which ends the scan. -/
theorem scan_nulls (left : Nat) (hnulls : s.nulls ≤ 3)
    (hstop : s.stop = e.start + (e.text.length + s.nulls)) (hfound : s.foundTarget = true) :
    (scan e.binary e.start left s).foundTarget = true ∧
      (scan e.binary e.start left s).lastValidEnd = s.lastValidEnd := by
  induction left generalizing s with
  | zero => exact ⟨hfound, rfl⟩
  | succ left ih =>
    have hbyte : e.binary.getD s.stop 0 = 0 := by rw [hstop, getD_null (by omega)]
    have hstep : (step e.binary e.start s).1.foundTarget = true ∧
        (step e.binary e.start s).1.lastValidEnd = s.lastValidEnd ∧
        ((step e.binary e.start s).2 = true → s.nulls < 3 ∧
          (step e.binary e.start s).1.nulls = s.nulls + 1 ∧
          (step e.binary e.start s).1.stop = s.stop + 1) := by
      unfold step
      simp only [hbyte, hfound, show isText 0 = false from rfl]
      grind
    obtain ⟨hfound', hlast, hgo⟩ := hstep
    rw [scan]
    split
    · rename_i h
      obtain ⟨hlt, hnulls', hstop'⟩ := hgo h
      rw [← hlast]
      exact ih (by omega) (by omega) hfound'
    · exact ⟨hfound', hlast⟩

/-- A target directive that lies within the bytes looked at is found. -/
theorem Inside.found_target (h : Inside e e.text.length s) : s.foundTarget = true := by
  obtain ⟨front, back, htext⟩ := e.target
  have hlen : (ascii ".target ").length = 8 := by decide +kernel
  have htotal := congrArg List.length htext
  simp only [length_append, hlen] at htotal
  refine h.found front.length (by omega) ?_
  have hdrop : e.binary.drop (e.start + front.length) =
      ascii ".target " ++ (back ++ (replicate e.nulls 0 ++ e.rest)) := by
    simp [binary, start, ← htext, append_assoc]
  have height := e.eight_le
  have hlt : e.start + front.length + 8 < e.binary.length := by
    simp only [binary, start, length_append, length_replicate]
    omega
  rw [markerAt, decide_eq_true hlt, hdrop, Bool.true_and, isPrefixOf_iff_prefix,
    take_append_of_le_length hlen.ge, take_of_length_le hlen.le]

/-- The scan ends at the end of the text, or where it looks no further. -/
theorem extract_eq : extractPtxFromOffsetImproved e.binary e.start =
    if (trim (e.text.take limit)).length < 50 then none else some (trim (e.text.take limit)) := by
  have hlen : e.text.length + 8 ≤ e.binary.length - e.start := by
    have := e.eight_le
    simp only [binary, start, length_append, length_replicate]
    omega
  have hinit : Inside e 0 ⟨e.start, 0, e.start, false, false, 0⟩ := by
    constructor <;> simp
  obtain ⟨left, hleft⟩ : ∃ left, min (e.binary.length - e.start) limit =
      min e.text.length limit + left := Nat.exists_eq_add_of_le (by omega)
  obtain ⟨s', hs', hscan⟩ := hinit.scan (min e.text.length limit) left (by omega)
  rw [Nat.zero_add] at hs'
  rw [← hleft] at hscan
  have hpos : 0 < min e.text.length limit := by
    have := e.fifty_le.trans (length_trim_le e.text)
    have : 0 < limit := by decide
    omega
  have hstop (final : Scan) (hfinal : final = scan e.binary e.start left s') :
      (if final.foundTarget && final.lastValidEnd > e.start then final.lastValidEnd
        else final.stop) = e.start + min e.text.length limit := by
    subst hfinal
    rcases Nat.lt_or_ge e.text.length limit with hlt | hge
    · rw [min_eq_left hlt.le] at hs' hpos ⊢
      have hfound := hs'.found_target
      have hend := scan_nulls (e := e) (s := s') left (by rw [hs'.nulls]; omega)
        (by rw [hs'.nulls, hs'.stop]; rfl) hfound
      rw [hs'.lastValidEnd hfound] at hend
      simp [hend.1, hend.2, hpos]
    · obtain rfl : left = 0 := by omega
      rw [scan, hs'.stop]
      grind [hs'.lastValidEnd]
  have hclean : ((e.binary.drop e.start).take (min e.text.length limit)).filter
      (fun b => b != 0 && isText b) = e.text.take limit := by
    have hpart : (e.binary.drop e.start).take (min e.text.length limit) = e.text.take limit := by
      rw [binary, start, drop_left, take_append_of_le_length (min_le_left ..)]
      exact take_eq_take_iff.2 (by omega)
    rw [hpart, filter_eq_self]
    intro b hb
    have hb' := e.printable b (mem_of_mem_take hb)
    have hzero : b ≠ 0 := by
      rintro rfl
      cases hb'
    simp [hb', hzero]
  unfold extractPtxFromOffsetImproved
  simp only [hstop _ hscan, Nat.add_sub_cancel_left, hclean]
  rw [if_neg (by omega)]

theorem length_le_of_extract {found : List UInt8}
    (h : extractPtxFromOffsetImproved e.binary e.start = some found) : found.length ≤ limit := by
  rw [extract_eq] at h
  split at h
  · cases h
  · cases h
    exact (length_trim_le _).trans (length_take_le ..)

end Embedded

/-! ## Trimming a part -/

theorem rdropWhile_take_eq_iff {p : UInt8 → Bool} (l : List UInt8) (n : Nat) :
    (l.take n).rdropWhile p = l.rdropWhile p ↔ (l.rdropWhile p).length ≤ n := by
  constructor
  · intro h
    rw [← h]
    exact (IsPrefix.length_le <| rdropWhile_prefix p _).trans (length_take_le ..)
  · intro h
    induction l using List.reverseRecOn with
    | nil => simp
    | append_singleton l x ih =>
      by_cases hx : p x = true
      · rw [rdropWhile_concat_pos _ _ _ hx] at h ⊢
        rcases Nat.lt_or_ge l.length n with hlt | hge
        · rw [take_of_length_le (by simpa using hlt), rdropWhile_concat_pos _ _ _ hx]
        · rw [take_append_of_le_length hge, ih h]
      · rw [rdropWhile_concat_neg _ _ _ hx] at h
        rw [take_of_length_le h]

theorem trim_of_version {s : List UInt8} (h : ascii ".version" <+: s) :
    trim s = s.rdropWhile isSpace := by
  obtain ⟨rest, rfl⟩ := h
  rw [trim, show ascii ".version" = 46 :: ascii "version" by decide +kernel]
  rfl

/-- **Recovered whole.** The trimmed text is returned exactly when it is within the bytes that
are looked at. -/
theorem extract_text_iff (e : Embedded) :
    extractPtxFromOffsetImproved e.binary e.start = some (trim e.text) ↔
      (trim e.text).length ≤ limit := by
  have hpart : ascii ".version" <+: e.text.take limit :=
    prefix_take_iff.2 ⟨e.version, by decide +kernel⟩
  have hfifty := e.fifty_le
  rw [trim_of_version e.version] at hfifty ⊢
  rw [e.extract_eq, ← rdropWhile_take_eq_iff, trim_of_version hpart]
  grind

def header : List UInt8 := ascii ".version 7.0\n.target sm_80\n"

/-- Two directives and a long word. -/
def word (n : Nat) : List UInt8 := header ++ replicate (n + 23) 97

theorem version_word (n : Nat) : ascii ".version" <+: word n :=
  (by decide +kernel : ascii ".version" <+: header).trans (prefix_append ..)

theorem length_trim_word (n : Nat) : (trim (word n)).length = n + 50 := by
  rw [trim_of_version (version_word n), word, replicate_succ', ← append_assoc,
    rdropWhile_concat_neg _ _ _ (by decide)]
  simp only [length_append, length_replicate, show header.length = 27 by decide +kernel]
  rw [length_singleton]
  omega

def embedded (n : Nat) : Embedded where
  before := []
  text := word n
  nulls := 8
  rest := []
  eight_le := le_rfl
  printable := by
    intro b hb
    rcases mem_append.1 hb with h | h
    · exact (by decide +kernel : ∀ b ∈ header, isText b = true) b h
    · rw [eq_of_mem_replicate h]
      rfl
  version := version_word n
  target := (by decide +kernel : ascii ".target " <:+: header).trans (prefix_append ..).isInfix
  fifty_le := by
    rw [length_trim_word]
    omega

theorem not_extract_word : extractPtxFromOffsetImproved (embedded limit).binary
    (embedded limit).start ≠ some (trim (embedded limit).text) := by
  intro h
  have hle := (length_trim_word limit).symm.trans_le (Embedded.length_le_of_extract h)
  omega

end Concordia.Host.PtxText
