import Concordia.Lib.Template

/-!
# Paths of a Unix system

A path is a string of characters and of bytes that are no characters. It is read as
its components: repeated and trailing slashes and inner `.` do not count, and two
paths are equal when their components are. A template of which the tokens stand for
digits gives equal paths only where it gives equal texts (`render_eq_of_components`).
-/

namespace Concordia.Lib.UnixPath

/-! ## Strings of the system -/

inductive OsChar where
  | char (c : Char)
  /-- bytes that are not the encoding of a character -/
  | invalid (bytes : List UInt8)
  deriving DecidableEq, Repr

abbrev OsText := List OsChar

def ofText (s : Text) : OsText := s.map .char

/-- `OsStr::to_str`. -/
def toStr (s : OsText) : Option Text :=
  s.mapM fun
    | .char c => some c
    | .invalid _ => none

/-- `to_string_lossy`: the replacement character for what is no character. -/
def toStringLossy (s : OsText) : Text :=
  s.map fun
    | .char c => c
    | .invalid _ => '�'

/-! ## Components -/

inductive Component where
  | rootDir
  | curDir
  | parentDir
  | normal (name : OsText)
  deriving DecidableEq, Repr

def slash : OsChar := .char '/'

/-- What stands between the slashes. -/
def pieces (path : OsText) : List OsText := path.splitOn slash

def dot : OsText := [.char '.']

def dotDot : OsText := [.char '.', .char '.']

/-- The component of a piece, if it counts. -/
def componentOf (piece : OsText) : Option Component :=
  if piece = [] ∨ piece = dot then none
  else if piece = dotDot then some .parentDir
  else some (.normal piece)

def isAbsolute (path : OsText) : Bool := path.head? = some slash

/-- The components of a path that starts elsewhere. -/
def relativeComponents (path : OsText) : List Component := (pieces path).filterMap componentOf

/-- `Path::components`. A `.` counts at the start only. -/
def components (path : OsText) : List Component :=
  if isAbsolute path then .rootDir :: relativeComponents path
  else if (pieces path).head? = some dot then .curDir :: relativeComponents path
  else relativeComponents path

/-- `Path::file_name`. -/
def fileName (path : OsText) : Option OsText :=
  match (components path).getLast? with
  | some (.normal name) => some name
  | _ => none

/-- `Path::parent`, by its components. -/
def parent (path : OsText) : Option (List Component) :=
  match (components path).getLast? with
  | none => none
  | some .rootDir => none
  | some _ => some (components path).dropLast

/-- `Path::join`, by components, for a directory that is not empty. -/
def join (directory : List Component) (path : OsText) : List Component :=
  if isAbsolute path then components path else directory ++ relativeComponents path

/-- A file name before and after its last dot. -/
def splitAtDot (name : OsText) : Option (OsText × OsText) :=
  match name.reverse.span (· ≠ .char '.') with
  | (_, []) => none
  | (after, _ :: before) => some (before.reverse, after.reverse)

/-- `Path::file_stem`. A name that starts with its only dot has no extension. -/
def fileStem (name : OsText) : OsText :=
  match splitAtDot name with
  | none => name
  | some (before, _) => if before = [] then name else before

/-- `Path::extension`. -/
def extension (name : OsText) : Option OsText :=
  match splitAtDot name with
  | none => none
  | some (before, after) => if before = [] then none else some after

/-! ## Filled templates -/

section

open Template List Option

variable {τ : Type} {v w : τ → Text}

/-- A template over the characters of the system. -/
def osTemplate (ps : List (Char ⊕ τ)) : List (OsChar ⊕ τ) := ps.map (Sum.map .char id)

theorem ofText_render (ps : List (Char ⊕ τ)) :
    ofText (render v ps) = render (fun t => ofText (v t)) (osTemplate ps) := by
  rw [ofText, render, map_flatMap, osTemplate, render, flatMap_map]
  congr 1
  funext p
  cases p <;> rfl

theorem ofText_inj {s t : Text} (h : ofText s = ofText t) : s = t :=
  map_injective_iff.mpr (fun _ _ => OsChar.char.inj) h

/-- A value of digits has no slash, and is neither empty nor a dot. -/
structure Solid (value : OsText) : Prop where
  not_slash : ∀ c ∈ value, (c == slash) = false
  not_dot : .char '.' ∉ value
  nonempty : value ≠ []

theorem solid_of_digits {s : Text} (h : Digits s) : Solid (ofText s) := by
  have hchar : ∀ c ∈ ofText s, ∃ d, d.isDigit = true ∧ c = .char d := by
    intro c hc
    obtain ⟨d, hd, rfl⟩ := mem_map.mp hc
    exact ⟨d, h.2 d hd, rfl⟩
  refine ⟨fun c hc => ?_, fun hc => ?_, ?_⟩
  · obtain ⟨d, hd, rfl⟩ := hchar c hc
    refine beq_eq_false_iff_ne.mpr fun heq => ?_
    rw [OsChar.char.inj heq] at hd
    exact absurd hd (by decide)
  · obtain ⟨d, hd, heq⟩ := hchar _ hc
    rw [← OsChar.char.inj heq] at hd
    exact absurd hd (by decide)
  · exact fun hnil => h.1 (map_eq_nil_iff.mp hnil)

variable {f g : τ → OsText} {ps : List (OsChar ⊕ τ)}

/-- A piece does not count for the same reason under all values. -/
theorem render_eq_literal_iff (hf : ∀ t, Solid (f t)) {literal : OsText}
    (hliteral : ∀ c ∈ literal, c = .char '.') :
    render f ps = literal ↔ ps = literal.map .inl := by
  induction ps generalizing literal with
  | nil => cases literal <;> simp
  | cons p ps ih =>
    cases p with
    | inl c =>
      cases literal with
      | nil => simp
      | cons d literal =>
        have htail := ih fun x hx => hliteral x (mem_cons_of_mem d hx)
        simp [htail]
    | inr t =>
      have hnot : (.inr t :: ps : List (OsChar ⊕ τ)) ≠ literal.map .inl := by
        cases literal <;> simp
      refine iff_of_false (fun heq => ?_) hnot
      obtain ⟨c, value, hvalue⟩ := exists_cons_of_ne_nil (hf t).nonempty
      have hmem : c ∈ f t := hvalue ▸ mem_cons_self
      have hdot : c = .char '.' := by
        refine hliteral c ?_
        rw [← heq, render_cons_inr]
        exact mem_append_left _ hmem
      exact (hf t).not_dot (hdot ▸ hmem)

theorem componentOf_eq_some_inj {a b : OsText} {c : Component} (ha : componentOf a = some c)
    (hb : componentOf b = some c) : a = b := by
  unfold componentOf at ha hb
  split at ha
  · cases ha
  split at hb
  · cases hb
  split at ha <;> split at hb
  · rename_i ha' hb'
    rw [ha', hb']
  · rw [← some.inj ha] at hb
    cases hb
  · rw [← some.inj ha] at hb
    cases hb
  · rw [← some.inj ha] at hb
    exact (Component.normal.inj (some.inj hb)).symm

theorem componentOf_eq_none_iff {a : OsText} : componentOf a = none ↔ a = [] ∨ a = dot := by
  unfold componentOf
  split
  · rename_i h
    simp [h]
  · rename_i h
    split <;> simp [h]

variable (hf : ∀ t, Solid (f t))

include hf

/-- Whether a filled piece counts does not depend on the values. -/
theorem componentOf_render_none_iff :
    componentOf (render f ps) = none ↔ ps = [] ∨ ps = dot.map .inl := by
  rw [componentOf_eq_none_iff, render_eq_literal_iff hf (by simp),
    render_eq_literal_iff hf (by simp [dot])]
  rfl

theorem map_render_eq_of_filterMap (hg : ∀ t, Solid (g t)) {parts : List (List (OsChar ⊕ τ))} (h :
      (parts.map (render f)).filterMap componentOf = (parts.map (render g)).filterMap componentOf) :
    parts.map (render f) = parts.map (render g) := by
  induction parts with
  | nil => rfl
  | cons part parts ih =>
    rw [map_cons, map_cons] at h ⊢
    cases hcomponent : componentOf (render f part) with
    | none =>
      have hpart := (componentOf_render_none_iff hf).mp hcomponent
      have hcomponent' := (componentOf_render_none_iff hg).mpr hpart
      have hsame : render f part = render g part := by
        rcases hpart with rfl | rfl <;> rfl
      rw [filterMap_cons_none hcomponent, filterMap_cons_none hcomponent'] at h
      rw [hsame, ih h]
    | some c =>
      obtain ⟨c', hcomponent'⟩ : ∃ c', componentOf (render g part) = some c' := by
        refine Option.ne_none_iff_exists'.mp fun hnone => ?_
        rw [(componentOf_render_none_iff hf).mpr ((componentOf_render_none_iff hg).mp hnone)]
          at hcomponent
        cases hcomponent
      rw [filterMap_cons_some hcomponent, filterMap_cons_some hcomponent'] at h
      obtain ⟨rfl, hrest⟩ := List.cons.inj h
      rw [componentOf_eq_some_inj hcomponent hcomponent', ih hrest]

theorem pieces_render (ps : List (OsChar ⊕ τ)) :
    pieces (render f ps) = (ps.splitOnP (isSeparator (· == slash))).map (render f) :=
  splitOnP_render (fun t => (hf t).not_slash) ps

theorem render_eq_of_relativeComponents (hg : ∀ t, Solid (g t))
    (h : relativeComponents (render f ps) = relativeComponents (render g ps)) :
    render f ps = render g ps := by
  unfold relativeComponents at h
  rw [pieces_render hf, pieces_render hg] at h
  have hpieces : pieces (render f ps) = pieces (render g ps) := by
    rw [pieces_render hf, pieces_render hg, map_render_eq_of_filterMap hf hg h]
  have hjoined : ∀ path : OsText, [slash].intercalate (pieces path) = path :=
    fun _ => intercalate_splitOn slash
  rw [← hjoined (render f ps), hpieces, hjoined]

theorem isAbsolute_render (hg : ∀ t, Solid (g t)) :
    isAbsolute (render f ps) = isAbsolute (render g ps) := by
  have hvalue :
      ∀ h : τ → OsText, (∀ t, Solid (h t)) → ∀ t rest, isAbsolute (h t ++ rest) = false := by
    intro h hh t rest
    obtain ⟨c, value, hvalue⟩ := exists_cons_of_ne_nil (hh t).nonempty
    have hc := (hh t).not_slash c (hvalue ▸ mem_cons_self)
    rw [hvalue]
    simpa [isAbsolute] using hc
  cases ps with
  | nil => rfl
  | cons p ps =>
    cases p with
    | inl c => rfl
    | inr t => rw [render_cons_inr, render_cons_inr, hvalue f hf, hvalue g hg]

/-- **Paths of a template.** -/
theorem render_eq_of_components (hg : ∀ t, Solid (g t))
    (h : components (render f ps) = components (render g ps)) : render f ps = render g ps := by
  have hdot : ∀ c ∈ dot, c = .char '.' := by simp [dot]
  have hstart : (pieces (render f ps)).head? = some dot ↔
      (pieces (render g ps)).head? = some dot := by
    rw [pieces_render hf, pieces_render hg, head?_map, head?_map]
    cases (ps.splitOnP (isSeparator (· == slash))).head? with
    | none => simp
    | some part =>
      simp only [Option.map_some, Option.some.injEq]
      rw [render_eq_literal_iff hf hdot, render_eq_literal_iff hg hdot]
  unfold components at h
  rw [isAbsolute_render hf hg] at h
  refine render_eq_of_relativeComponents hf hg ?_
  split at h
  · exact (List.cons.inj h).2
  · by_cases hcur : (pieces (render f ps)).head? = some dot
    · rw [if_pos hcur, if_pos (hstart.mp hcur)] at h
      exact (List.cons.inj h).2
    · rwa [if_neg hcur, if_neg fun hcur' => hcur (hstart.mpr hcur')] at h

theorem render_eq_of_join (hg : ∀ t, Solid (g t)) {directory : List Component}
    (h : join directory (render f ps) = join directory (render g ps)) :
    render f ps = render g ps := by
  unfold join at h
  rw [isAbsolute_render hf hg] at h
  split at h
  · exact render_eq_of_components hf hg h
  · exact render_eq_of_relativeComponents hf hg (append_cancel_left h)

end

end Concordia.Lib.UnixPath
