import Mathlib

/-!
# Text as lists of characters

Trimming, lines, fields and decimal numbers, as the usual string library has them. The
lemmas say that what a printer joins with a separator that its parts do not contain, these
functions take apart again.
-/

namespace Concordia.Lib

open List

abbrev Text := List Char

-- Named, so that every membership test on texts refers to one proof.
instance instLawfulBEqText : LawfulBEq Text := inferInstance

namespace Text

/-! ## Whitespace -/

/-- The Unicode property `White_Space`. -/
def isWhitespace (c : Char) : Bool :=
  let n := c.toNat
  (9 ≤ n && n ≤ 13) || n == 0x20 || n == 0x85 || n == 0xA0 || n == 0x1680 ||
    (0x2000 ≤ n && n ≤ 0x200A) || n == 0x2028 || n == 0x2029 || n == 0x202F || n == 0x205F ||
    n == 0x3000

/-- No character is whitespace. -/
def Solid (s : Text) : Prop := ∀ c ∈ s, isWhitespace c = false

instance (s : Text) : Decidable (Solid s) :=
  decidable_of_iff (s.all fun c => !isWhitespace c) (by simp [Solid])

/-- Neither end is whitespace. -/
def Trimmed (s : Text) : Prop :=
  (∀ c ∈ s.head?, isWhitespace c = false) ∧ ∀ c ∈ s.getLast?, isWhitespace c = false

instance (s : Text) : Decidable (Trimmed s) :=
  decidable_of_iff (s.head?.all (!isWhitespace ·) ∧ s.getLast?.all (!isWhitespace ·))
    (by simp [Trimmed, Option.all_eq_true])

def trim (s : Text) : Text := (s.dropWhile isWhitespace).rdropWhile isWhitespace

def trimStart (s : Text) : Text := s.dropWhile isWhitespace

/-- `s` has `sub` in it somewhere. -/
def contains (sub s : Text) : Bool := s.tails.any sub.isPrefixOf

variable {s t : Text}

theorem Solid.append (hs : Solid s) (ht : Solid t) : Solid (s ++ t) := by
  intro c hc
  rcases mem_append.mp hc with hc | hc
  · exact hs c hc
  · exact ht c hc

theorem Solid.trimmed (h : Solid s) : Trimmed s :=
  ⟨fun c hc => h c (mem_of_mem_head? hc), fun c hc => h c (mem_of_getLast? hc)⟩

theorem Trimmed.append (hs : Trimmed s) (ht : Trimmed t) : Trimmed (s ++ t) := by
  constructor
  · intro c hc
    rw [head?_append, Option.mem_def, Option.or_eq_some_iff] at hc
    exact hc.elim (hs.1 c) fun h => ht.1 c h.2
  · intro c hc
    rw [getLast?_append, Option.mem_def, Option.or_eq_some_iff] at hc
    exact hc.elim (ht.2 c) fun h => hs.2 c h.2

theorem rdropWhile_append (ht : Trimmed t) (hne : t ≠ []) :
    (s ++ t).rdropWhile isWhitespace = s ++ t := by
  rw [rdropWhile_eq_self_iff]
  intro hl
  rw [getLast_append_of_ne_nil hl hne, ht.2 _ (getLast?_eq_some_getLast hne)]
  exact Bool.false_ne_true

theorem dropWhile_append (hs : Trimmed s) (hne : s ≠ []) :
    (s ++ t).dropWhile isWhitespace = s ++ t := by
  obtain ⟨c, s, rfl⟩ := exists_cons_of_ne_nil hne
  rw [cons_append, dropWhile_cons, hs.1 c rfl]
  rfl

/-- **Padding goes**, and what stands between two trimmed ends stays. -/
theorem trim_pad {pad first mid last : Text} (hpad : ∀ c ∈ pad, isWhitespace c = true)
    (hfirst : Trimmed first) (hlast : Trimmed last) (hf : first ≠ []) (hl : last ≠ []) :
    trim (pad ++ (first ++ mid ++ last)) = first ++ mid ++ last := by
  have hdrop : (pad ++ (first ++ mid ++ last)).dropWhile isWhitespace = first ++ mid ++ last := by
    rw [dropWhile_append_of_pos hpad, append_assoc, dropWhile_append hfirst hf]
  rw [trim, hdrop, rdropWhile_append hlast hl]

theorem Trimmed.trim_eq (h : Trimmed s) : trim s = s := by
  by_cases hne : s = []
  · rw [hne]
    rfl
  · have hdrop := dropWhile_append (t := []) h hne
    have hrdrop := rdropWhile_append (s := []) h hne
    rw [append_nil] at hdrop
    rw [trim, hdrop]
    exact hrdrop

/-! ## Lines -/

/-- A line end may be preceded by a carriage return. -/
def stripReturn (s : Text) : Text := if s.getLast? = some '\r' then s.dropLast else s

/-- The lines from here; `line` holds what was read of the current one, reversed. -/
def linesFrom (line : Text) : Text → List Text
  | [] => if line = [] then [] else [line.reverse]
  | c :: rest =>
    if c = '\n' then stripReturn line.reverse :: linesFrom [] rest else linesFrom (c :: line) rest

def lines (s : Text) : List Text := linesFrom [] s

theorem linesFrom_append {line rest : Text} (h : '\n' ∉ s) :
    linesFrom line (s ++ '\n' :: rest) =
      stripReturn (line.reverse ++ s) :: lines rest := by
  induction s generalizing line with
  | nil => simp [linesFrom, lines]
  | cons c s ih =>
    have hc : c ≠ '\n' := fun he => h (he ▸ mem_cons_self)
    have hs : '\n' ∉ s := fun hm => h (mem_cons_of_mem c hm)
    rw [cons_append, linesFrom, if_neg hc, ih hs, reverse_cons, append_assoc]
    rfl

/-- **A printed line is read back.** -/
theorem lines_append {rest : Text} (h : '\n' ∉ s) :
    lines (s ++ '\n' :: rest) = stripReturn s :: lines rest := linesFrom_append h

/-! ## Fields -/

/-- What stands before the first whitespace, and after it if there is any. -/
def splitOnce (s : Text) : Text × Option Text :=
  (s.takeWhile fun c => !isWhitespace c,
    match s.dropWhile fun c => !isWhitespace c with
    | [] => none
    | _ :: rest => some rest)

variable {c : Char}

theorem splitOnce_append {rest : Text} (hs : Solid s) (hc : isWhitespace c = true) :
    splitOnce (s ++ c :: rest) = (s, some rest) := by
  have hall : ∀ d ∈ s, (!isWhitespace d) = true := fun d hd => by rw [hs d hd]; rfl
  rw [splitOnce, takeWhile_append_of_pos hall, dropWhile_append_of_pos hall,
    takeWhile_cons, dropWhile_cons, hc]
  simp

/-- `split(',')`. -/
def fields (s : Text) : List Text := s.splitOn ','

theorem fields_intercalate {parts : List Text} (h : ∀ p ∈ parts, ',' ∉ p) (hne : parts ≠ []) :
    fields ([','].intercalate parts) = parts := splitOn_intercalate ',' h hne

/-- A separator that the second part does not contain. -/
theorem append_cons_inj {s' d d' : Text} (hd : c ∉ d) (hd' : c ∉ d') :
    s ++ c :: d = s' ++ c :: d' ↔ s = s' ∧ d = d' := by
  have hback : ∀ {s d : Text}, c ∉ d → (s ++ c :: d).reverse.takeWhile (· != c) = d.reverse := by
    intro s d hd
    have hall : ∀ x ∈ d.reverse, (x != c) = true :=
      fun x hx => bne_iff_ne.mpr fun heq => hd (heq ▸ mem_reverse.mp hx)
    rw [reverse_append, reverse_cons, append_assoc,
      takeWhile_append_of_pos hall]
    simp
  constructor
  · intro h
    have hsame : d = d' := by rw [← reverse_inj, ← hback hd, ← hback hd', h]
    rw [hsame] at h
    exact ⟨append_cancel_right h, hsame⟩
  · rintro ⟨rfl, rfl⟩
    rfl

/-- What stands before and after the first `sub`. -/
def breakOn (sub : Text) : Text → Option (Text × Text)
  | [] => if sub = [] then some ([], []) else none
  | c :: rest =>
    if sub.isPrefixOf (c :: rest) then some ([], (c :: rest).drop sub.length)
    else (breakOn sub rest).map fun parts => (c :: parts.1, parts.2)

/-- `split(sep).nth(1)`. -/
def secondPart (sep s : Text) : Option Text :=
  (breakOn sep s).map fun parts => ((breakOn sep parts.2).map Prod.fst).getD parts.2

/-- The words from here; `word` holds what was read of the current one, reversed. -/
def wordsFrom (word : Text) : Text → List Text
  | [] => if word = [] then [] else [word.reverse]
  | c :: rest =>
    if isWhitespace c then (if word = [] then [] else [word.reverse]) ++ wordsFrom [] rest
    else wordsFrom (c :: word) rest

/-- `split_whitespace`. -/
def words (s : Text) : List Text := wordsFrom [] s

/-! ## Numbers -/

def decimal (n : Nat) : Text := Nat.toDigits 10 n

theorem isDigit_of_mem_decimal {n : Nat} (h : c ∈ decimal n) : c.isDigit :=
  Nat.isDigit_of_mem_toDigits (by decide) (by decide) h

theorem not_mem_decimal {n : Nat} (h : c.isDigit = false) : c ∉ decimal n := by
  intro hc
  rw [isDigit_of_mem_decimal hc] at h
  cases h

theorem decimal_inj {n m : Nat} (h : decimal n = decimal m) : n = m := by
  have hvalue : ∀ n, Nat.ofDigitChars 10 (decimal n) 0 = n := fun n => Nat.ofDigitChars_ten_toDigits
  rw [← hvalue n, h, hvalue]

theorem isWhitespace_of_isDigit (h : c.isDigit) : isWhitespace c = false := by
  simp only [Char.isDigit, Bool.and_eq_true, decide_eq_true_eq] at h
  have hlo : 48 ≤ c.toNat := h.1
  have hhi : c.toNat ≤ 57 := h.2
  unfold isWhitespace
  simp
  omega

theorem solid_decimal (n : Nat) : Solid (decimal n) :=
  fun _ hc => isWhitespace_of_isDigit (isDigit_of_mem_decimal hc)

/-- A leading plus sign before something else is dropped. -/
def dropPlus : Text → Text
  | '+' :: c :: rest => c :: rest
  | s => s

/-- An unsigned number below `bound`: one digit or more. -/
def parseUnsigned (bound : Nat) (s : Text) : Option Nat :=
  let digits := dropPlus s
  if digits ≠ [] ∧ digits.all Char.isDigit ∧ Nat.ofDigitChars 10 digits 0 < bound then
    some (Nat.ofDigitChars 10 digits 0)
  else none

/-- The value of a hexadecimal digit. -/
def hexDigit (c : Char) : Option Nat :=
  if '0' ≤ c ∧ c ≤ '9' then some (c.toNat - '0'.toNat)
  else if 'a' ≤ c ∧ c ≤ 'f' then some (c.toNat - 'a'.toNat + 10)
  else if 'A' ≤ c ∧ c ≤ 'F' then some (c.toNat - 'A'.toNat + 10)
  else none

/-- One digit or more, to a base of at most sixteen. -/
def parseDigits (base : Nat) (digits : Text) : Option Nat :=
  if digits = [] then none
  else digits.foldlM (fun n c => ((hexDigit c).filter (· < base)).map (base * n + ·)) 0

/-- An unsigned hexadecimal number below `bound`. -/
def parseHex (bound : Nat) (s : Text) : Option Nat :=
  (parseDigits 16 (dropPlus s)).filter (· < bound)

theorem dropPlus_decimal (n : Nat) : dropPlus (decimal n) = decimal n := by
  unfold dropPlus
  split
  · rename_i c rest he
    have hmem : '+' ∈ decimal n := he ▸ mem_cons_self
    exact absurd (isDigit_of_mem_decimal hmem) (by decide)
  · rfl

/-- **A printed number is read back.** -/
theorem parseUnsigned_decimal {bound n : Nat} (h : n < bound) :
    parseUnsigned bound (decimal n) = some n := by
  have hvalue : Nat.ofDigitChars 10 (decimal n) 0 = n := Nat.ofDigitChars_ten_toDigits
  have hall : (decimal n).all Char.isDigit :=
    all_eq_true.mpr fun c hc => isDigit_of_mem_decimal hc
  unfold parseUnsigned
  dsimp only
  rw [dropPlus_decimal, hvalue, if_pos ⟨Nat.toDigits_ne_nil, hall, h⟩]

/-! ## Comments and strings -/

/-- Where in the text a character stands. -/
inductive Lexeme where
  | code
  | comment
  | quoted

/-- The line without comments and strings, and whether a block comment is open
at its end. -/
def visible : Lexeme → Text → Text × Bool
  | .comment, '*' :: '/' :: rest =>
    let (text, inside) := visible .code rest
    (' ' :: ' ' :: text, inside)
  | .comment, _ :: rest =>
    let (text, inside) := visible .comment rest
    (' ' :: text, inside)
  | .comment, [] => ([], true)
  | .quoted, '"' :: rest =>
    let (text, inside) := visible .code rest
    (' ' :: text, inside)
  | .quoted, _ :: rest =>
    let (text, inside) := visible .quoted rest
    (' ' :: text, inside)
  | .quoted, [] => ([], false)
  | .code, '/' :: '/' :: _ => ([], false)
  | .code, '/' :: '*' :: rest =>
    let (text, inside) := visible .comment rest
    (' ' :: ' ' :: text, inside)
  | .code, '"' :: rest =>
    let (text, inside) := visible .quoted rest
    (' ' :: text, inside)
  | .code, c :: rest =>
    let (text, inside) := visible .code rest
    (c :: text, inside)
  | .code, [] => ([], false)

end Text

end Concordia.Lib
