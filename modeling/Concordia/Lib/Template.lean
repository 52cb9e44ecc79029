import Concordia.Lib.Text

/-!
# Text templates

A template is a text with tokens, names in braces. Replacing the tokens one kind
after the other, by texts of digits, gives the same as replacing all of them at once
(`replace_render`), because no token can arise from what a replacement leaves.

Two fillings of a template agree only if they agree on every stretch between two
characters that are no digits (`render_piece`); there a token whose length is the
only one open can be read back (`render_inj_of_others`).
-/

namespace Concordia.Lib.Template

open List Function

/-! ## Replacing -/

/-- Replace the occurrences of `pat`, from the left; the next `skip` characters
belong to the last one. -/
def replaceFrom (pat new : Text) : Nat → Text → Text
  | _, [] => []
  | skip + 1, _ :: rest => replaceFrom pat new skip rest
  | 0, c :: rest =>
    if pat.isPrefixOf (c :: rest) then new ++ replaceFrom pat new (pat.length - 1) rest
    else c :: replaceFrom pat new 0 rest

/-- `str::replace`. -/
def replace (pat new s : Text) : Text := replaceFrom pat new 0 s

section

variable {pat new : Text}

theorem replaceFrom_eq_drop (skip : Nat) (s : Text) :
    replaceFrom pat new skip s = replace pat new (s.drop skip) := by
  induction skip generalizing s with
  | zero => rfl
  | succ skip ih =>
    cases s with
    | nil => rfl
    | cons c rest => exact ih rest

theorem replace_pat_append (hne : pat ≠ []) (rest : Text) :
    replace pat new (pat ++ rest) = new ++ replace pat new rest := by
  obtain ⟨c, tail, rfl⟩ := exists_cons_of_ne_nil hne
  have hpre : (c :: tail).isPrefixOf (c :: (tail ++ rest)) = true := by
    rw [List.isPrefixOf_iff_prefix]
    exact prefix_append (c :: tail) rest
  rw [cons_append, replace, replaceFrom, if_pos hpre, replaceFrom_eq_drop]
  simp

theorem replace_cons_of_not_prefix {c : Char} {rest : Text} (h : ¬ pat <+: c :: rest) :
    replace pat new (c :: rest) = c :: replace pat new rest := by
  rw [replace, replaceFrom, if_neg (by rwa [List.isPrefixOf_iff_prefix])]
  rfl

/-- A part in which no occurrence begins is copied. -/
theorem replace_append_of_no_start {a b : Text}
    (h : ∀ a', a' <:+ a → a' ≠ [] → ¬ pat <+: a' ++ b) :
    replace pat new (a ++ b) = a ++ replace pat new b := by
  induction a with
  | nil => rfl
  | cons c a ih =>
    have hhead : ¬ pat <+: c :: (a ++ b) := h (c :: a) (suffix_refl _) (cons_ne_nil _ _)
    rw [cons_append, replace_cons_of_not_prefix hhead, ih, cons_append]
    exact fun a' ha' => h a' (ha'.trans (suffix_cons c a))

end

/-! ## Filling -/

section

variable {α τ : Type}

/-- Literals as they are, tokens by their values. -/
def render (v : τ → List α) (ps : List (α ⊕ τ)) : List α :=
  ps.flatMap (Sum.elim (fun c => [c]) v)

variable {v w : τ → List α} {ps : List (α ⊕ τ)}

@[simp] theorem render_nil : render v ([] : List (α ⊕ τ)) = [] := rfl

@[simp] theorem render_cons_inl (c : α) : render v (.inl c :: ps) = c :: render v ps := rfl

@[simp] theorem render_cons_inr (t : τ) : render v (.inr t :: ps) = v t ++ render v ps := rfl

/-- Values that agree on the tokens there are fill alike. -/
theorem render_congr (h : ∀ t, .inr t ∈ ps → v t = w t) : render v ps = render w ps := by
  apply flatMap_congr
  rintro (c | t) ht
  · rfl
  · exact h t ht

theorem render_literals (s : List α) (ps : List (α ⊕ τ)) :
    render v (s.map .inl ++ ps) = s ++ render v ps := by
  simp [render, flatMap_map]

/-- Values of equal lengths can be read back. -/
theorem eq_of_render_eq (hlen : ∀ t, .inr t ∈ ps → (v t).length = (w t).length)
    (h : render v ps = render w ps) : ∀ t, .inr t ∈ ps → v t = w t := by
  induction ps with
  | nil => simp
  | cons p ps ih =>
    have hlen' := fun t ht => hlen t (mem_cons_of_mem p ht)
    intro t ht
    cases p with
    | inl c =>
      rw [render_cons_inl, render_cons_inl] at h
      exact ih hlen' (List.cons.inj h).2 t (by simpa using ht)
    | inr u =>
      rw [render_cons_inr, render_cons_inr] at h
      obtain ⟨hu, hrest⟩ := append_inj h (hlen u mem_cons_self)
      rcases mem_cons.mp ht with heq | ht
      · obtain rfl := Sum.inr.inj heq
        exact hu
      · exact ih hlen' hrest t ht

/-- A longer value makes the text longer. -/
theorem length_render_lt (h : ∀ t, .inr t ∈ ps → (v t).length ≤ (w t).length) {t : τ}
    (ht : .inr t ∈ ps) (hlt : (v t).length < (w t).length) :
    (render v ps).length < (render w ps).length := by
  rw [render, render, length_flatMap, length_flatMap]
  refine sum_lt_sum _ _ ?_ ⟨.inr t, ht, hlt⟩
  rintro (c | u) hu
  · exact le_rfl
  · exact h u hu

/-- If the other values are equally long, a token of the template can be read
back. -/
theorem render_inj_of_others {t : τ} (ht : .inr t ∈ ps)
    (hothers : ∀ u, .inr u ∈ ps → u ≠ t → (v u).length = (w u).length)
    (h : render v ps = render w ps) : v t = w t := by
  have hlen : (v t).length = (w t).length := by
    have hlt : ∀ v w : τ → List α, render v ps = render w ps →
        (∀ u, .inr u ∈ ps → u ≠ t → (v u).length = (w u).length) →
        ¬ (v t).length < (w t).length := by
      intro v w h hothers hlt
      have hle : ∀ u, .inr u ∈ ps → (v u).length ≤ (w u).length := by
        intro u hu
        by_cases hut : u = t
        · exact hut ▸ hlt.le
        · exact (hothers u hu hut).le
      exact absurd (congrArg List.length h) (length_render_lt hle ht hlt).ne
    have hge := hlt w v h.symm fun u hu hut => (hothers u hu hut).symm
    have := hlt v w h hothers
    omega
  refine eq_of_render_eq (fun u hu => ?_) h t ht
  by_cases hut : u = t
  · exact hut ▸ hlen
  · exact hothers u hu hut

/-! ## Splitting -/

/-- The separators of a template: none of them in a token. -/
def isSeparator (p : α → Bool) : α ⊕ τ → Bool := Sum.elim p fun _ => false

variable {p : α → Bool}

theorem splitOnP_append_of_none {a b : List α} (h : ∀ x ∈ a, p x = false) :
    (a ++ b).splitOnP p = (b.splitOnP p).modifyHead (a ++ ·) := by
  induction a with
  | nil =>
    rw [nil_append]
    generalize b.splitOnP p = parts
    cases parts <;> rfl
  | cons x a ih =>
    have hx : p x = false := h x mem_cons_self
    rw [cons_append, splitOnP_cons_eq_if_modifyHead, if_neg (by simp [hx]),
      ih fun y hy => h y (mem_cons_of_mem x hy)]
    generalize b.splitOnP p = parts
    cases parts <;> rfl

/-- A filled template is split where the template is. -/
theorem splitOnP_render (hv : ∀ t, ∀ x ∈ v t, p x = false) (ps : List (α ⊕ τ)) :
    (render v ps).splitOnP p = (ps.splitOnP (isSeparator p)).map (render v) := by
  induction ps with
  | nil => simp
  | cons q ps ih =>
    cases q with
    | inl c =>
      have hsame : isSeparator p (.inl c : α ⊕ τ) = p c := rfl
      rw [render_cons_inl, splitOnP_cons_eq_if_modifyHead, splitOnP_cons_eq_if_modifyHead,
        ih, hsame]
      generalize ps.splitOnP (isSeparator p) = parts
      by_cases hc : p c = true
      · rw [if_pos hc, if_pos hc, map_cons, render_nil]
      · rw [if_neg hc, if_neg hc]
        cases parts <;> rfl
    | inr t =>
      have hnone : ¬ isSeparator p (.inr t : α ⊕ τ) = true := Bool.false_ne_true
      rw [render_cons_inr, splitOnP_append_of_none (hv t), ih, splitOnP_cons_eq_if_modifyHead,
        if_neg hnone]
      generalize ps.splitOnP (isSeparator p) = parts
      cases parts <;> rfl

/-- What two fillings have in common, they have in common between separators. -/
theorem render_piece (hv : ∀ t, ∀ x ∈ v t, p x = false) (hw : ∀ t, ∀ x ∈ w t, p x = false)
    (h : render v ps = render w ps) :
    ∀ q ∈ ps.splitOnP (isSeparator p), render v q = render w q := by
  have hsplit := congrArg (List.splitOnP p) h
  rw [splitOnP_render hv, splitOnP_render hw] at hsplit
  exact map_inj_left.mp hsplit

end

/-! ## Tokens -/

def openBrace : Char := '\x7b'

def closeBrace : Char := '\x7d'

section

variable {τ : Type}

/-- A token in a text: its name in braces. -/
def spell (name : τ → Text) (t : τ) : Text := openBrace :: (name t ++ [closeBrace])

/-- Different names, without braces and digits. -/
structure Plain (name : τ → Text) : Prop where
  plain : ∀ t, ∀ c ∈ name t, c ≠ openBrace ∧ c ≠ closeBrace ∧ c.isDigit = false
  inj : ∀ t u, name t = name u → t = u

def tokenAt (name : τ → Text) (tokens : List τ) (s : Text) : Option τ :=
  tokens.find? fun t => (spell name t).isPrefixOf s

/-- The literals and tokens of a text; the next `skip` characters belong to the
last token. -/
def parseFrom (name : τ → Text) (tokens : List τ) : Nat → Text → List (Char ⊕ τ)
  | _, [] => []
  | skip + 1, _ :: rest => parseFrom name tokens skip rest
  | 0, c :: rest =>
    match tokenAt name tokens (c :: rest) with
    | some t => .inr t :: parseFrom name tokens ((spell name t).length - 1) rest
    | none => .inl c :: parseFrom name tokens 0 rest

def parse (name : τ → Text) (tokens : List τ) (s : Text) : List (Char ⊕ τ) :=
  parseFrom name tokens 0 s

/-- The template of a text. A character is a literal if no token starts there. -/
inductive Parsed (name : τ → Text) : Text → List (Char ⊕ τ) → Prop
  | nil : Parsed name [] []
  | literal {c : Char} {rest : Text} {ps : List (Char ⊕ τ)}
      (hnone : ∀ t, ¬ spell name t <+: c :: rest) (hrest : Parsed name rest ps) :
      Parsed name (c :: rest) (.inl c :: ps)
  | token {t : τ} {rest : Text} {ps : List (Char ⊕ τ)} (hrest : Parsed name rest ps) :
      Parsed name (spell name t ++ rest) (.inr t :: ps)

variable {name : τ → Text} {tokens : List τ}

theorem parseFrom_eq_drop (skip : Nat) (s : Text) :
    parseFrom name tokens skip s = parse name tokens (s.drop skip) := by
  induction skip generalizing s with
  | zero => rfl
  | succ skip ih =>
    cases s with
    | nil => rfl
    | cons c rest => exact ih rest

theorem parsed_parse (hall : ∀ t, t ∈ tokens) (s : Text) : Parsed name s (parse name tokens s) := by
  induction hn : s.length using Nat.strong_induction_on generalizing s with
  | _ n ih =>
    cases s with
    | nil => exact .nil
    | cons c rest =>
      rw [parse, parseFrom]
      cases htoken : tokenAt name tokens (c :: rest) with
      | some t =>
        have hpre : spell name t <+: c :: rest := by
          have := find?_some htoken
          rwa [List.isPrefixOf_iff_prefix] at this
        obtain ⟨tail, htail⟩ := hpre
        have hdrop : rest.drop ((spell name t).length - 1) = tail := by
          have hrest : (name t ++ [closeBrace]) ++ tail = rest := (List.cons.inj htail).2
          rw [← hrest, spell, length_cons, Nat.add_sub_cancel, drop_left]
        have hshort : tail.length < n := by
          rw [← hn, ← htail, length_append, spell, length_cons]
          omega
        simp only
        rw [parseFrom_eq_drop, hdrop, ← htail]
        exact .token (ih tail.length hshort tail rfl)
      | none =>
        refine .literal (fun t hpre => ?_) (ih rest.length (by rw [← hn]; simp) rest rfl)
        have := find?_eq_none.mp htoken t (hall t)
        exact this (by rwa [List.isPrefixOf_iff_prefix])

variable {ps : List (Char ⊕ τ)}

theorem Parsed.render_spell {s : Text} (h : Parsed name s ps) : render (spell name) ps = s := by
  induction h with
  | nil => rfl
  | literal _ _ ih => rw [render_cons_inl, ih]
  | token _ ih => rw [render_cons_inr, ih]

/-- No token's spelling starts inside another's. -/
theorem Plain.not_prefix_of_suffix (hplain : Plain name) {t u : τ} (hne : t ≠ u) {a b : Text}
    (ha : a <:+ spell name u) (hnonempty : a ≠ []) : ¬ spell name t <+: a ++ b := by
  rintro ⟨tail, htail⟩
  rcases suffix_cons_iff.mp ha with rfl | hinside
  · -- Both names end at the first closing brace.
    simp only [spell, cons_append, append_assoc, nil_append] at htail
    have hnames := (List.cons.inj htail).2
    have hsplit : ∀ t, ∀ rest : Text,
        (name t ++ closeBrace :: rest).takeWhile (· ≠ closeBrace) = name t := by
      intro t rest
      rw [takeWhile_append_of_pos]
      · simp
      · intro c hc
        simpa using (hplain.plain t c hc).2.1
    refine hne (hplain.inj t u ?_)
    rw [← hsplit t tail, hnames, hsplit]
  · -- A proper part of a spelling does not start with an opening brace.
    obtain ⟨c, a, rfl⟩ := exists_cons_of_ne_nil hnonempty
    rw [spell, cons_append, cons_append] at htail
    have hc : c ∈ name u ++ [closeBrace] := hinside.subset mem_cons_self
    have hopen : openBrace = c := (List.cons.inj htail).1
    rcases mem_append.mp hc with hname | hclose
    · exact (hplain.plain u c hname).1 hopen.symm
    · rw [mem_singleton] at hclose
      exact absurd (hopen.trans hclose) (by decide)

/-- Some digits. -/
def Digits (s : Text) : Prop := s ≠ [] ∧ ∀ c ∈ s, c.isDigit = true

/-- The values so far: digits, or the token as it is spelled. -/
def filled (name : τ → Text) (v : τ → Option Text) (t : τ) : Text := (v t).getD (spell name t)

theorem Plain.not_isDigit_of_mem_spell (hplain : Plain name) {t : τ} {c : Char}
    (hc : c ∈ spell name t) : c.isDigit = false := by
  rcases mem_cons.mp hc with rfl | hc
  · decide
  · rcases mem_append.mp hc with hc | hc
    · exact (hplain.plain t c hc).2.2
    · rw [mem_singleton.mp hc]
      decide

/-- What starts with no digit in a half-filled template is spelled out there. -/
theorem prefix_render_spell {v : τ → Option Text} (hv : ∀ t d, v t = some d → Digits d)
    {pat : Text} (hpat : ∀ c ∈ pat, c.isDigit = false) (h : pat <+: render (filled name v) ps) :
    pat <+: render (spell name) ps := by
  induction ps generalizing pat with
  | nil => exact h
  | cons p ps ih =>
    cases pat with
    | nil => exact List.nil_prefix
    | cons c pat =>
      have hpat' : ∀ c ∈ pat, c.isDigit = false := fun x hx => hpat x (mem_cons_of_mem c hx)
      cases p with
      | inl x =>
        rw [render_cons_inl, cons_prefix_cons] at h ⊢
        exact ⟨h.1, ih hpat' h.2⟩
      | inr t =>
        rw [render_cons_inr] at h ⊢
        cases hvalue : v t with
        | some d =>
          obtain ⟨hne, hdigits⟩ := hv t d hvalue
          obtain ⟨x, d, rfl⟩ := exists_cons_of_ne_nil hne
          rw [filled, hvalue, Option.getD_some, cons_append, cons_prefix_cons] at h
          have hx := hdigits x mem_cons_self
          rw [← h.1, hpat c mem_cons_self] at hx
          exact absurd hx (by decide)
        | none =>
          rw [filled, hvalue, Option.getD_none] at h
          obtain ⟨tail, htail⟩ := h
          rcases append_eq_append_iff.mp htail with ⟨rest, hinside, _⟩ | ⟨rest, hrest, hpre⟩
          · exact List.IsPrefix.trans ⟨rest, hinside.symm⟩ (prefix_append _ _)
          · rw [hrest]
            refine (prefix_append_right_inj _).mpr (ih (fun x hx => hpat x ?_) ⟨tail, hpre.symm⟩)
            rw [hrest]
            exact mem_append_right _ hx

variable [DecidableEq τ]

/-- **Replacing one kind of token** in a half-filled template fills it. -/
theorem replace_render (hplain : Plain name) {v : τ → Option Text}
    (hv : ∀ t d, v t = some d → Digits d) {s : Text} (h : Parsed name s ps) {t : τ}
    (ht : v t = none) (new : Text) :
    replace (spell name t) new (render (filled name v) ps) =
      render (filled name (update v t (some new))) ps := by
  induction h with
  | nil => rfl
  | @literal c rest ps hnone hrest ih =>
    have hnot : ¬ spell name t <+: c :: render (filled name v) ps := by
      intro hpre
      have hspelled : spell name t <+: render (spell name) (.inl c :: ps) :=
        prefix_render_spell hv (fun _ hc => hplain.not_isDigit_of_mem_spell hc) hpre
      rw [render_cons_inl, hrest.render_spell] at hspelled
      exact hnone t hspelled
    rw [render_cons_inl, render_cons_inl, replace_cons_of_not_prefix hnot, ih]
  | @token u rest ps _ ih =>
    rw [render_cons_inr, render_cons_inr]
    by_cases hut : u = t
    · subst hut
      have hbefore : filled name v u = spell name u := by rw [filled, ht, Option.getD_none]
      have hafter : filled name (update v u (some new)) u = new := by
        rw [filled, Function.update_self, Option.getD_some]
      have hne : spell name u ≠ [] := cons_ne_nil _ _
      rw [hbefore, hafter, replace_pat_append hne, ih]
    · have hsame : filled name (update v t (some new)) u = filled name v u := by
        rw [filled, Function.update_of_ne hut, filled]
      rw [hsame, replace_append_of_no_start, ih]
      intro a ha hnonempty
      cases hvalue : v u with
      | none =>
        rw [filled, hvalue, Option.getD_none] at ha
        exact hplain.not_prefix_of_suffix (Ne.symm hut) ha hnonempty
      | some d =>
        rw [filled, hvalue, Option.getD_some] at ha
        obtain ⟨x, a, rfl⟩ := exists_cons_of_ne_nil hnonempty
        have hx := (hv u d hvalue).2 x (ha.subset mem_cons_self)
        rintro ⟨tail, htail⟩
        rw [spell, cons_append, cons_append] at htail
        rw [← (List.cons.inj htail).1] at hx
        exact absurd hx (by decide)

theorem contains_iff {sub s : Text} :
    Text.contains sub s = true ↔ ∃ a b, s = a ++ b ∧ sub <+: b := by
  rw [Text.contains, any_eq_true]
  constructor
  · rintro ⟨b, hb, hpre⟩
    obtain ⟨a, rfl⟩ := (mem_tails _ _).mp hb
    exact ⟨a, b, rfl, List.isPrefixOf_iff_prefix.mp hpre⟩
  · rintro ⟨a, b, rfl, hpre⟩
    exact ⟨b, (mem_tails _ _).mpr (suffix_append a b),
      List.isPrefixOf_iff_prefix.mpr hpre⟩

omit [DecidableEq τ] in
/-- A token of the template is in the text. -/
theorem Parsed.contains_of_mem {s : Text} (h : Parsed name s ps) {t : τ} (ht : .inr t ∈ ps) :
    Text.contains (spell name t) s = true := by
  rw [contains_iff]
  induction h with
  | nil => simp at ht
  | @literal c rest ps _ _ ih =>
    obtain ⟨a, b, rfl, hpre⟩ := ih (by simpa using ht)
    exact ⟨c :: a, b, rfl, hpre⟩
  | @token u rest ps _ ih =>
    rcases mem_cons.mp ht with heq | ht
    · obtain rfl := Sum.inr.inj heq
      exact ⟨[], _, rfl, prefix_append _ _⟩
    · obtain ⟨a, b, rfl, hpre⟩ := ih ht
      exact ⟨spell name u ++ a, b, (append_assoc _ _ _).symm, hpre⟩

/-- A token that the text has somewhere is in its template. -/
theorem Parsed.mem_of_contains (hplain : Plain name) {s : Text} (h : Parsed name s ps) {t : τ}
    (hcontains : Text.contains (spell name t) s = true) : .inr t ∈ ps := by
  induction h with
  | nil =>
    obtain ⟨a, b, hab, hpre⟩ := contains_iff.mp hcontains
    obtain ⟨-, rfl⟩ := append_eq_nil_iff.mp hab.symm
    exact absurd (prefix_nil.mp hpre) (cons_ne_nil _ _)
  | @literal c rest ps hnone _ ih =>
    obtain ⟨a, b, hab, hpre⟩ := contains_iff.mp hcontains
    cases a with
    | nil =>
      rw [nil_append] at hab
      exact absurd (hab ▸ hpre) (hnone t)
    | cons x a =>
      refine mem_cons_of_mem _ (ih (contains_iff.mpr ⟨a, b, ?_, hpre⟩))
      exact (List.cons.inj hab).2
  | @token u rest ps _ ih =>
    by_cases hut : u = t
    · exact hut ▸ mem_cons_self
    · obtain ⟨a, b, hab, hpre⟩ := contains_iff.mp hcontains
      refine mem_cons_of_mem _ (ih (contains_iff.mpr ?_))
      -- The occurrence starts after the spelling of the other token.
      rcases append_eq_append_iff.mp hab with ⟨a', _, hrest⟩ | ⟨b', hspell, hb⟩
      · exact ⟨a', b, hrest, hpre⟩
      · by_cases hnil : b' = []
        · refine ⟨[], b, ?_, hpre⟩
          rw [hb, hnil]
          rfl
        · rw [hb] at hpre
          exact absurd hpre (hplain.not_prefix_of_suffix (Ne.symm hut) ⟨a, hspell.symm⟩ hnil)

end

end Concordia.Lib.Template
