import Eleu.Diagnostic
import Eleu.Fault
import Mathlib.Data.List.Infix

/-! # Spans read back from diagnostics

    A diagnostic is the text of a span, a colon and a message, none of which is escaped. The span comes
    back from it (`span_of_diagnostic`) if the file name does not hold the three characters that end the
    text of a span. File names and messages may hold parentheses, commas and colons otherwise. -/

namespace Eleu

namespace Span

variable {sep : Char} {pat cs rest : List Char}

/-! ## Cutting a text -/

/-- An occurrence at the front of a text cannot reach past a character that it does not hold. -/
theorem prefix_of_sep (hsep : sep ∉ pat) (h : pat <+: cs ++ sep :: rest) : pat <+: cs := by
  rcases Nat.le_total pat.length cs.length with hle | hle
  · exact List.prefix_of_prefix_length_le h (List.prefix_append ..) hle
  · obtain ⟨more, hmore⟩ := List.prefix_of_prefix_length_le (List.prefix_append cs (sep :: rest)) h hle
    cases more with
    | nil => rw [← hmore, List.append_nil]
    | cons c more =>
      obtain ⟨tail, htail⟩ := h
      rw [← hmore, List.append_assoc, List.append_cancel_left_eq] at htail
      obtain ⟨rfl, -⟩ := List.cons.inj htail
      exact absurd (hmore ▸ List.mem_append_right _ (List.mem_cons_self ..)) hsep

/-- No occurrence begins in a text without one, even if the text goes on with another character. -/
theorem beforeFirst_append (hsep : sep ∉ pat) (h : ¬ pat <:+: cs) :
    beforeFirst pat (cs ++ sep :: rest) = (beforeFirst pat (sep :: rest)).map (cs ++ ·) := by
  induction cs with
  | nil => simp
  | cons c cs ih =>
    have hfront : pat.isPrefixOf (c :: (cs ++ sep :: rest)) = false := by
      refine eq_false_of_ne_true fun hfront => h ?_
      exact (prefix_of_sep hsep
        (show _ <+: (c :: cs) ++ sep :: rest from List.isPrefixOf_iff_prefix.1 hfront)).isInfix
    rw [List.cons_append, beforeFirst, hfront, ih fun hcs => h (hcs.trans (List.suffix_cons c cs).isInfix)]
    simp [Function.comp_def]

/-- What goes before the first occurrence, if it does not hold the first character of that. -/
theorem beforeFirst_of_not_mem (h : sep ∉ cs) :
    beforeFirst (sep :: pat) (cs ++ sep :: (pat ++ rest)) = some cs := by
  induction cs with
  | nil => simp [beforeFirst]
  | cons c cs ih =>
    obtain ⟨hne, hcs⟩ := List.ne_and_not_mem_of_not_mem_cons h
    rw [List.cons_append, beforeFirst, List.isPrefixOf_cons_cons, beq_false_of_ne hne, ih hcs]
    rfl

theorem splitLast_of_not_mem (h : sep ∉ cs) : splitLast sep cs = none := by
  induction cs with
  | nil => rfl
  | cons c cs ih =>
    obtain ⟨hne, hcs⟩ := List.ne_and_not_mem_of_not_mem_cons h
    rw [splitLast, ih hcs]
    exact if_neg hne.symm

theorem splitLast_append (h : sep ∉ rest) : splitLast sep (cs ++ sep :: rest) = some (cs, rest) := by
  induction cs with
  | nil =>
    rw [List.nil_append, splitLast, splitLast_of_not_mem h]
    exact if_pos rfl
  | cons c cs ih => rw [List.cons_append, splitLast, ih]

theorem splitAll_of_not_mem (h : sep ∉ cs) : splitAll sep cs = [cs] := by
  induction cs with
  | nil => rfl
  | cons c cs ih =>
    obtain ⟨hne, hcs⟩ := List.ne_and_not_mem_of_not_mem_cons h
    rw [splitAll, ih hcs]
    exact if_neg hne.symm

theorem splitAll_append (h : sep ∉ cs) : splitAll sep (cs ++ sep :: rest) = cs :: splitAll sep rest := by
  induction cs with
  | nil =>
    rw [List.nil_append, splitAll]
    exact if_pos rfl
  | cons c cs ih =>
    obtain ⟨hne, hcs⟩ := List.ne_and_not_mem_of_not_mem_cons h
    rw [List.cons_append, splitAll, ih hcs]
    exact if_neg hne.symm

/-! ## Coordinates -/

theorem not_mem_toDigits {c : Char} (h : c.isDigit = false) (n : Nat) : c ∉ Nat.toDigits 10 n := by
  intro hc
  rw [Nat.isDigit_of_mem_toDigits (by decide) (by decide) hc] at h
  cases h

theorem isBlank_of_isDigit {c : Char} (h : c.isDigit = true) : Text.isBlank c = false := by
  obtain ⟨hlow, hhigh⟩ := Char.isDigit_iff_toNat.1 h
  have hlow : 48 ≤ c.toNat := hlow
  have hhigh : c.toNat ≤ 57 := hhigh
  rw [Text.isBlank, Text.blankRuns, Text.inRuns, if_neg (by omega), Text.inRuns, if_neg (by omega),
    Text.inRuns, if_pos (by omega)]
  exact decide_eq_false (by omega)

theorem trim_of_forall (h : ∀ c ∈ cs, Text.isBlank c = false) : Text.trim cs = cs := by
  have hdrop : ∀ {ds : List Char}, (∀ c ∈ ds, Text.isBlank c = false) → ds.dropWhile Text.isBlank = ds := by
    intro ds hds
    cases ds with
    | nil => rfl
    | cons d ds => rw [List.dropWhile_cons, hds d (List.mem_cons_self ..)]; rfl
  rw [Text.trim, hdrop h, hdrop fun c hc => h c (List.mem_reverse.1 hc), List.reverse_reverse]

/-- A number is read from its digits as it was written. -/
theorem readCoordinate_toDigits {n : Nat} (h : n < UInt64.size) :
    readCoordinate (Nat.toDigits 10 n) = some n := by
  have hdigit : ∀ c ∈ Nat.toDigits 10 n, c.isDigit = true := fun c =>
    Nat.isDigit_of_mem_toDigits (by decide) (by decide)
  have htrim : Text.trim (Nat.toDigits 10 n) = Nat.toDigits 10 n :=
    trim_of_forall fun c hc => isBlank_of_isDigit (hdigit c hc)
  have hvalue : digitsValue (Nat.toDigits 10 n) = n := Nat.ofDigitChars_ten_toDigits
  have hplus := not_mem_toDigits (show '+'.isDigit = false by decide) n
  rw [readCoordinate, htrim]
  dsimp only
  split
  · next heq => exact absurd (heq ▸ List.mem_cons_self ..) hplus
  · rw [hvalue, List.all_eq_true.2 hdigit, if_neg (by simp [Nat.toDigits_ne_nil])]
    exact if_pos h

/-- The four numbers of a span, with commas between. -/
def coordinates (s : Span) : List Char :=
  Nat.toDigits 10 s.start.line ++ ',' :: (Nat.toDigits 10 s.start.col
    ++ ',' :: (Nat.toDigits 10 s.stop.line ++ ',' :: Nat.toDigits 10 s.stop.col))

theorem text_toList (s : Span) : s.text.toList = s.file.toList ++ '(' :: (s.coordinates ++ [')']) := by
  simp [text, coordinates]

theorem not_mem_coordinates {c : Char} (h : c.isDigit = false) (hcomma : c ≠ ',') (s : Span) :
    c ∉ s.coordinates := by
  simp [coordinates, not_mem_toDigits h, hcomma]

/-- The numbers of the span fit a machine word. -/
structure Fits (s : Span) : Prop where
  startLine : s.start.line < UInt64.size
  startCol : s.start.col < UInt64.size
  stopLine : s.stop.line < UInt64.size
  stopCol : s.stop.col < UInt64.size

theorem readCoordinates (s : Span) (h : s.Fits) : (splitAll ',' s.coordinates).mapM readCoordinate
    = some [s.start.line, s.start.col, s.stop.line, s.stop.col] := by
  have hcomma := fun n => not_mem_toDigits (show ','.isDigit = false by decide) n
  rw [coordinates, splitAll_append (hcomma _), splitAll_append (hcomma _), splitAll_append (hcomma _),
    splitAll_of_not_mem (hcomma _)]
  simp [readCoordinate_toDigits, h.startLine, h.startCol, h.stopLine, h.stopCol]

theorem ofHint?_text (s : Span) (hfile : ¬ [')', ':', ' '] <:+: s.file.toList) (h : s.Fits) (message : String) :
    ofHint? (s.text ++ ": " ++ message) = some s := by
  have hhint : (s.text ++ ": " ++ message).toList
      = s.file.toList ++ '(' :: (s.coordinates ++ ')' :: ([':', ' '] ++ message.toList)) := by
    simp [text_toList]
  have hhead : beforeFirst [')', ':', ' '] (s.text ++ ": " ++ message).toList
      = some (s.file.toList ++ '(' :: s.coordinates) := by
    rw [hhint, beforeFirst_append (by decide) hfile]
    have hclose : ')' ∉ '(' :: s.coordinates :=
      List.not_mem_cons_of_ne_of_not_mem (by decide) (not_mem_coordinates (by decide) (by decide) s)
    rw [← List.cons_append, beforeFirst_of_not_mem hclose, Option.map_some]
  have hopen : '(' ∉ s.coordinates := not_mem_coordinates (by decide) (by decide) s
  rw [ofHint?, hhead, Option.bind_eq_bind, Option.bind_some, splitLast_append hopen]
  simp [readCoordinates s h]

end Span

/-- A diagnostic, of whatever kind and with whatever message, gives back the span that it begins with. -/
theorem span_of_diagnostic (s : Span) (hfile : ¬ [')', ':', ' '] <:+: s.file.toList) (h : s.Fits) :
    (∀ message, Span.ofHint? (s.text ++ ": " ++ message) = some s)
      ∧ (∀ cause, Span.ofHint? (Diagnostic.text ⟨s, cause⟩) = some s)
      ∧ ∀ cause, Span.ofHint? (Fault.text ⟨cause, some s⟩) = some s :=
  ⟨s.ofHint?_text hfile h, fun cause => s.ofHint?_text hfile h cause.message,
    fun cause => s.ofHint?_text hfile h cause.message⟩

theorem span_of_diagnostic_parentheses :
    (¬ [')', ':', ' '] <:+: "a (1,2):b".toList) ∧ (Span.mk "a (1,2):b" ⟨3, 4⟩ ⟨5, 60⟩).Fits
      ∧ Span.ofHint? (Fault.text ⟨.undefinedProperty "(7,8,9,1): x", some ⟨"a (1,2):b", ⟨3, 4⟩, ⟨5, 60⟩⟩⟩)
        = some ⟨"a (1,2):b", ⟨3, 4⟩, ⟨5, 60⟩⟩ := by
  have hfile : ¬ [')', ':', ' '] <:+: "a (1,2):b".toList := by decide
  have hfits : (Span.mk "a (1,2):b" ⟨3, 4⟩ ⟨5, 60⟩).Fits := ⟨by decide, by decide, by decide, by decide⟩
  exact ⟨hfile, hfits, (span_of_diagnostic _ hfile hfits).2.2 _⟩

end Eleu
