import Concordia.Lib.UnixPath
import Concordia.Runtime.Basic

/-!
# Log files of the ranks of a job

`mpi_scoped_aof_path_for_info` gives every rank of a parallel job a path of its own:
the rank is put into the file name, or into the places that a template has for it.
Numbers are put in as they are printed. A template that runs the rank and the local
rank together can give two ranks one path (`mpiScopedAofPath_collides`); the paths
differ whenever the digits of the two do not always touch
(`mpiScopedAofPath_ne`).
-/

namespace Concordia.Runtime

open Concordia.Lib Concordia.Lib.Template Concordia.Lib.UnixPath List Text

/-- The tokens of a template. -/
inductive PathToken where
  | rank
  | world
  | localRank
  deriving DecidableEq, Repr

namespace PathToken

def name : PathToken → Text
  | .rank => ['r', 'a', 'n', 'k']
  | .world => ['w', 'o', 'r', 'l', 'd']
  | .localRank => ['l', 'o', 'c', 'a', 'l', '_', 'r', 'a', 'n', 'k']

/-- The token in a text, with its braces. -/
def text (t : PathToken) : Text := spell name t

end PathToken

/-- What a token is replaced by. -/
def MpiInfo.value (info : MpiInfo) : PathToken → Text
  | .rank => decimal info.rank.toNat
  | .world => decimal info.worldSize.toNat
  | .localRank => decimal info.localRank.toNat

/-- `{n:04}`. -/
def padded (n : Nat) : Text :=
  replicate (4 - (decimal n).length) '0' ++ decimal n

def rankedSuffix (info : MpiInfo) : Text :=
  "rank".toList ++ padded info.rank.toNat ++ "-of-".toList ++ padded info.worldSize.toNat

def rankedName (path : OsText) (info : MpiInfo) : Text :=
  let file := ((fileName path).bind toStr).getD "concordia.aof".toList
  let stem := (((fileName path).map fileStem).bind toStr).getD file
  match ((fileName path).bind extension).bind toStr with
  | some ext =>
    if ext ≠ [] then stem ++ ['.'] ++ rankedSuffix info ++ ['.'] ++ ext
    else file ++ ['.'] ++ rankedSuffix info
  | none => file ++ ['.'] ++ rankedSuffix info

/-- `mpi_scoped_aof_path_for_info`. Paths are given by their components, which is
how they are compared. -/
def mpiScopedAofPathForInfo (path : OsText) (info : MpiInfo) : List Component :=
  if ¬ info.isParallel then components path
  else
    let text := toStringLossy path
    if contains PathToken.rank.text text || contains PathToken.world.text text ||
        contains PathToken.localRank.text text then
      components (ofText (replace PathToken.localRank.text (info.value .localRank)
        (replace PathToken.world.text (info.value .world)
          (replace PathToken.rank.text (info.value .rank) text))))
    else
      match parent path with
      | some directory =>
        if directory ≠ [] then join directory (ofText (rankedName path info))
        else components (ofText (rankedName path info))
      | none => components (ofText (rankedName path info))

/-! ## Templates -/

def template (text : Text) : List (Char ⊕ PathToken) :=
  parse PathToken.name [.rank, .world, .localRank] text

/-- Its stretches between two literals that are no digits. -/
def stretches (text : Text) : List (List (Char ⊕ PathToken)) :=
  (template text).splitOnP (isSeparator fun c => !c.isDigit)

/-- Some stretch has one of rank and local rank in it, and not the other. -/
def RankReadable (text : Text) : Prop :=
  ∃ stretch ∈ stretches text, (.inr .rank ∈ stretch ∧ .inr .localRank ∉ stretch) ∨
    (.inr .rank ∉ stretch ∧ .inr .localRank ∈ stretch)

theorem plain_name : Plain PathToken.name := by
  refine ⟨?_, ?_⟩
  · intro t
    cases t <;> simp [PathToken.name, openBrace, closeBrace]
  · intro t u
    cases t <;> cases u <;> decide

theorem parsed_template (text : Text) : Parsed PathToken.name text (template text) :=
  parsed_parse (by intro t; cases t <;> decide) text

theorem digits_decimal (n : Nat) : Digits (decimal n) :=
  ⟨Nat.toDigits_ne_nil, fun _ hc => isDigit_of_mem_decimal hc⟩

theorem digits_value (info : MpiInfo) (t : PathToken) : Digits (info.value t) := by
  cases t <;> exact digits_decimal _

/-- The three replacements fill the template. -/
theorem replace_template (info : MpiInfo) (text : Text) :
    replace PathToken.localRank.text (info.value .localRank)
        (replace PathToken.world.text (info.value .world)
          (replace PathToken.rank.text (info.value .rank) text)) =
      render info.value (template text) := by
  have hparsed := parsed_template text
  have hspelled : render (filled PathToken.name fun _ => none) (template text) = text :=
    hparsed.render_spell
  have hdigits : ∀ v : PathToken → Option Text, (∀ t d, v t = some d → Digits d) → ∀ t,
      ∀ u d, Function.update v t (some (info.value t)) u = some d → Digits d := by
    intro v hv t u d hd
    by_cases hut : u = t
    · subst hut
      rw [Function.update_self] at hd
      exact Option.some.inj hd ▸ digits_value info u
    · rw [Function.update_of_ne hut] at hd
      exact hv u d hd
  have hnone : ∀ (t : PathToken) (d : Text), (none : Option Text) = some d → Digits d :=
    fun _ _ h => nomatch h
  conv_lhs => rw [← hspelled]
  unfold PathToken.text
  rw [replace_render plain_name hnone hparsed rfl,
    replace_render plain_name (hdigits _ hnone _) hparsed rfl,
    replace_render plain_name (hdigits _ (hdigits _ hnone _) _) hparsed rfl]
  refine render_congr fun t _ => ?_
  cases t <;> rfl

section

variable {a b : MpiInfo} {text : Text}

/-- Two ranks that fill a template alike are one. -/
theorem rank_eq_of_render_eq (hworld : a.worldSize = b.worldSize)
    (hrank : contains PathToken.rank.text text = true)
    (hlocal : contains PathToken.localRank.text text = false ∨
      (a.value .localRank).length = (b.value .localRank).length ∨ RankReadable text)
    (h : render a.value (template text) = render b.value (template text)) : a.rank = b.rank := by
  have hsame : a.value .world = b.value .world := by rw [MpiInfo.value, MpiInfo.value, hworld]
  have hmem : .inr .rank ∈ template text := (parsed_template text).mem_of_contains plain_name hrank
  have hnot : ∀ info : MpiInfo, ∀ t, ∀ c ∈ info.value t, (!c.isDigit) = false := by
    intro info t c hc
    rw [(digits_value info t).2 c hc]
    rfl
  -- The rank is read back as soon as the local ranks are equally long.
  have hread : (.inr .localRank ∈ template text →
      (a.value .localRank).length = (b.value .localRank).length) →
      a.value .rank = b.value .rank := by
    intro hlength
    refine render_inj_of_others hmem (fun u hu hne => ?_) h
    cases u with
    | rank => exact absurd rfl hne
    | world => rw [hsame]
    | localRank => exact hlength hu
  have hvalue : a.value .rank = b.value .rank := by
    rcases hlocal with hnone | hlength | ⟨stretch, hstretch, hone⟩
    · refine hread fun hin => ?_
      have hcontains := (parsed_template text).contains_of_mem hin
      rw [PathToken.text] at hnone
      rw [hnone] at hcontains
      cases hcontains
    · exact hread fun _ => hlength
    · have hpart := render_piece (hnot a) (hnot b) h stretch hstretch
      rcases hone with ⟨hin, hout⟩ | ⟨hout, hin⟩
      · refine render_inj_of_others hin (fun u hu hne => ?_) hpart
        cases u with
        | rank => exact absurd rfl hne
        | world => rw [hsame]
        | localRank => exact absurd hu hout
      · have hlocal : a.value .localRank = b.value .localRank := by
          refine render_inj_of_others hin (fun u hu hne => ?_) hpart
          cases u with
          | rank => exact absurd hu hout
          | world => rw [hsame]
          | localRank => exact absurd rfl hne
        exact hread fun _ => by rw [hlocal]
  exact UInt32.toNat_inj.mp (decimal_inj hvalue)

end

/-! ## File names -/

theorem padded_inj {m n : Nat} (h : padded m = padded n) : m = n := by
  have hvalue : ∀ n, Nat.ofDigitChars 10 (padded n) 0 = n := by
    intro n
    rw [padded, Nat.ofDigitChars_append, Nat.ofDigitChars_replicate_zero, mul_zero]
    exact Nat.ofDigitChars_ten_toDigits
  rw [← hvalue m, h, hvalue]

theorem digits_padded (n : Nat) : Digits (padded n) := by
  refine ⟨fun hnil => ?_, fun c hc => ?_⟩
  · exact (digits_decimal n).1 (append_eq_nil_iff.mp hnil).2
  · rcases mem_append.mp hc with hc | hc
    · rw [eq_of_mem_replicate hc]
      rfl
    · exact (digits_decimal n).2 c hc

/-- In a ranked name only the rank is open. -/
theorem rankedName_eq (path : OsText) (worldSize : UInt32) :
    ∃ ps : List (Char ⊕ Unit), .inr () ∈ ps ∧ ∀ info : MpiInfo, info.worldSize = worldSize →
      rankedName path info = render (fun _ => padded info.rank.toNat) ps := by
  -- Whatever stands before and after the suffix.
  have hname : ∀ front back : Text, ∃ ps : List (Char ⊕ Unit), .inr () ∈ ps ∧
      ∀ info : MpiInfo, info.worldSize = worldSize →
        front ++ rankedSuffix info ++ back = render (fun _ => padded info.rank.toNat) ps := by
    intro front back
    refine ⟨(front ++ "rank".toList).map .inl ++ .inr () ::
      (("-of-".toList ++ padded worldSize.toNat ++ back).map .inl ++ []), by simp, ?_⟩
    rintro info rfl
    rw [render_literals, render_cons_inr, render_literals, render_nil, append_nil, rankedSuffix]
    simp only [append_assoc]
  unfold rankedName
  dsimp only
  generalize ((fileName path).bind toStr).getD "concordia.aof".toList = file
  generalize (((fileName path).map fileStem).bind toStr).getD file = stem
  have hplain := hname (file ++ ['.']) []
  simp only [append_nil] at hplain
  cases ((fileName path).bind extension).bind toStr with
  | none => exact hplain
  | some ext =>
    by_cases hext : ext = []
    · simpa [hext] using hplain
    · have hwith := hname (stem ++ ['.']) (['.'] ++ ext)
      simp only [← append_assoc] at hwith
      simpa only [ne_eq, hext, not_false_eq_true, if_true] using hwith

/-! ## Paths -/

/-- **Log files.** Two ranks of a parallel job have different paths if the base has
no token, or has one for the rank, and the local rank is not printed, or printed in
equally many digits, or somewhere kept apart from the rank. -/
theorem mpiScopedAofPath_ne (path : OsText) (a b : MpiInfo) (hworld : a.worldSize = b.worldSize)
    (hparallel : 1 < a.worldSize) (hrank : a.rank ≠ b.rank)
    (hbase : (∀ t : PathToken, contains t.text (toStringLossy path) = false) ∨
      (contains PathToken.rank.text (toStringLossy path) = true ∧
        (contains PathToken.localRank.text (toStringLossy path) = false ∨
          (decimal a.localRank.toNat).length = (decimal b.localRank.toNat).length ∨
          RankReadable (toStringLossy path)))) :
    mpiScopedAofPathForInfo path a ≠ mpiScopedAofPathForInfo path b := by
  have ha : a.isParallel = true := decide_eq_true hparallel
  have hb : b.isParallel = true := decide_eq_true (hworld ▸ hparallel)
  have hsolid : ∀ (info : MpiInfo) (t : PathToken), Solid (ofText (info.value t)) :=
    fun info t => solid_of_digits (digits_value info t)
  intro heq
  unfold mpiScopedAofPathForInfo at heq
  simp only [ha, hb, not_true, if_false] at heq
  rcases hbase with hnone | ⟨htoken, hlocal⟩
  · -- No token: the names differ in the rank they carry.
    simp only [hnone, Bool.or_self, Bool.false_eq_true, if_false] at heq
    obtain ⟨ps, hmem, hname⟩ := rankedName_eq path a.worldSize
    have hpadded : ∀ info : MpiInfo, ∀ _ : Unit, Solid (ofText (padded info.rank.toNat)) :=
      fun info _ => solid_of_digits (digits_padded _)
    have htext : ofText (rankedName path a) = ofText (rankedName path b) := by
      rw [hname a rfl, hname b hworld.symm, ofText_render, ofText_render] at heq ⊢
      cases hparent : parent path with
      | none =>
        rw [hparent] at heq
        exact render_eq_of_components (hpadded a) (hpadded b) heq
      | some directory =>
        rw [hparent] at heq
        by_cases hdirectory : directory = []
        · simp only [hdirectory, ne_eq, not_true, if_false] at heq
          exact render_eq_of_components (hpadded a) (hpadded b) heq
        · simp only [ne_eq, hdirectory, not_false_eq_true, if_true] at heq
          exact render_eq_of_join (hpadded a) (hpadded b) heq
    have hrender := ofText_inj htext
    rw [hname a rfl, hname b hworld.symm] at hrender
    have hvalue := render_inj_of_others hmem (fun u _ hne => absurd rfl hne) hrender
    exact hrank (UInt32.toNat_inj.mp (padded_inj hvalue))
  · -- A template: the paths are equal only if the texts are.
    simp only [htoken, Bool.true_or, if_true, replace_template] at heq
    rw [ofText_render, ofText_render] at heq
    have htext := render_eq_of_components (hsolid a) (hsolid b) heq
    rw [← ofText_render, ← ofText_render] at htext
    exact hrank (rank_eq_of_render_eq hworld htoken hlocal (ofText_inj htext))

/-- `r`, the rank, a hyphen and the local rank, in a directory. -/
def hyphenated : OsText :=
  ofText (['/', 't', '/', 'r'] ++ PathToken.rank.text ++ ['-'] ++ PathToken.localRank.text)

/-- A hyphen keeps rank and local rank apart. -/
theorem mpiScopedAofPath_ne_hyphenated :
    mpiScopedAofPathForInfo hyphenated ⟨1, 12, 11⟩ ≠
      mpiScopedAofPathForInfo hyphenated ⟨11, 12, 1⟩ := by
  have hstretch : (stretches (toStringLossy hyphenated))[4]? = some [.inr .rank] := by
    decide +kernel
  have hreadable : RankReadable (toStringLossy hyphenated) :=
    ⟨_, mem_of_getElem? hstretch, .inl ⟨by simp, by simp⟩⟩
  exact mpiScopedAofPath_ne hyphenated _ _ rfl (by decide) (by decide)
    (.inr ⟨by decide +kernel, .inr (.inr hreadable)⟩)

/-- Rank 1 with local rank 11 and rank 11 with local rank 1 have one file, when the
template runs the two numbers together. -/
theorem mpiScopedAofPath_collides :
    let path := ofText (PathToken.rank.text ++ PathToken.localRank.text)
    contains PathToken.rank.text (toStringLossy path) = true ∧
      mpiScopedAofPathForInfo path ⟨1, 12, 11⟩ = mpiScopedAofPathForInfo path ⟨11, 12, 1⟩ := by
  decide +kernel

end Concordia.Runtime
