import Eleu.Token.Scan
import Mathlib.Data.List.Induction
import Mathlib.Data.List.TakeWhile

/-! # Tokens cover the text

    The tokens of a source text cover it one after the other, and between two of them there is
    nothing but separators and comments (`scan_partition`). Each token knows its place exactly:
    the positions that the scanner counts as it goes along are the line and the column of the
    offsets at which the token starts and ends.

    `Piece.first` is described once, by the characters it takes (`Piece.first_splits`) and by what
    they have to do with the lexeme (`Piece.first_covers`); `skipBlanks` by the stretch that it
    skips (`skipBlanks_eq`). The induction is on the rounds of the scanner, and its invariant is
    that the characters left over are the end of the text. -/

namespace Eleu

/-! ## Positions -/

/-- The line and the column of an offset: one more than the number of newlines before it, and one
    more than the number of characters since the last of these. -/
def Pos.atOffset (text : List Char) (offset : Nat) : Pos :=
  let before := text.take offset
  ⟨before.count '\n' + 1, (before.reverse.takeWhile (· != '\n')).length + 1⟩

theorem Pos.afterAll_append (p : Pos) (cs ds : List Char) :
    p.afterAll (cs ++ ds) = (p.afterAll cs).afterAll ds :=
  List.foldl_append

/-- Counting along gives the line and the column. -/
theorem Pos.afterAll_first (cs : List Char) :
    Pos.first.afterAll cs
      = ⟨cs.count '\n' + 1, (cs.reverse.takeWhile (· != '\n')).length + 1⟩ := by
  induction cs using List.reverseRecOn with
  | nil => rfl
  | append_singleton cs c ih =>
    rw [afterAll_append, ih]
    show Pos.after _ c = _
    by_cases hc : c = '\n'
    · subst hc
      simp [Pos.after]
    · simp [Pos.after, hc, List.count_append]

theorem Pos.atOffset_append (before rest : List Char) :
    Pos.atOffset (before ++ rest) before.length = Pos.first.afterAll before := by
  rw [afterAll_first, atOffset, List.take_left']
  rfl

/-! ## Between two tokens -/

/-- A stretch of text without tokens, before `rest`: separators, and comments that run to the end of
    their line. Only at the end of the text no newline needs to follow a comment. -/
inductive Blank (rest : List Char) : List Char → Prop where
  | nil : Blank rest []
  | separator {c : Char} {cs : List Char} (h : isSeparator c) (hs : Blank rest cs) :
      Blank rest (c :: cs)
  | comment {body cs : List Char} (h : '\n' ∉ body) (hs : Blank rest cs) :
      Blank rest ('/' :: '/' :: (body ++ '\n' :: cs))
  | lastComment {body : List Char} (h : '\n' ∉ body) (hrest : rest = []) :
      Blank rest ('/' :: '/' :: body)

/-- A token can start here: neither a separator nor a comment does. -/
def Bare : List Char → Prop
  | [] => True
  | c :: cs => isSeparator c = false ∧ (c == '/' && cs.head? == some '/') = false

/-- What is skipped inside a comment that has begun: the rest of its line, and a stretch without
    tokens after that. -/
def InComment (rest skipped : List Char) : Prop :=
  ∃ body, '\n' ∉ body
    ∧ ((∃ cs, skipped = body ++ '\n' :: cs ∧ Blank rest cs) ∨ skipped = body ∧ rest = [])

theorem InComment.cons {rest cs : List Char} {c : Char} (hc : c ≠ '\n') (h : InComment rest cs) :
    InComment rest (c :: cs) := by
  obtain ⟨body, hbody, h⟩ := h
  refine ⟨c :: body, by simp [hbody, Ne.symm hc], ?_⟩
  rcases h with ⟨ds, rfl, hds⟩ | ⟨rfl, hrest⟩
  · exact .inl ⟨ds, rfl, hds⟩
  · exact .inr ⟨rfl, hrest⟩

/-- A comment begins with two slashes, the second of which is met inside it. -/
theorem InComment.opened {rest cs : List Char} (h : InComment rest cs)
    (hc : (cs ++ rest).head? = some '/') : Blank rest ('/' :: cs) := by
  obtain ⟨body, hbody, h⟩ := h
  cases body with
  | nil =>
    rcases h with ⟨ds, rfl, -⟩ | ⟨rfl, rfl⟩
    · exact nomatch hc
    · exact nomatch hc
  | cons c body =>
    have hbody' : '\n' ∉ body := fun hmem => hbody (.tail _ hmem)
    rcases h with ⟨ds, rfl, hds⟩ | ⟨rfl, hrest⟩
    · cases hc
      exact .comment hbody' hds
    · cases hc
      exact .lastComment hbody' hrest

/-- The scanner skips a stretch without tokens, and stops where a token can start. -/
theorem skipBlanks_eq (inComment : Bool) (p : Pos) (cs : List Char) :
    ∃ skipped rest, cs = skipped ++ rest
      ∧ skipBlanks inComment p cs = (p.afterAll skipped, rest)
      ∧ (if inComment then InComment rest skipped else Blank rest skipped) ∧ Bare rest := by
  induction cs generalizing inComment p with
  | nil =>
    refine ⟨[], [], rfl, rfl, ?_, trivial⟩
    cases inComment with
    | true => exact ⟨[], List.not_mem_nil, .inr ⟨rfl, rfl⟩⟩
    | false => exact .nil
  | cons c cs ih =>
    cases inComment with
    | true =>
      obtain ⟨skipped, rest, rfl, heq, hskipped, hrest⟩ := ih (c != '\n') (p.after c)
      refine ⟨c :: skipped, rest, rfl, heq, ?_, hrest⟩
      by_cases hc : c = '\n'
      · subst hc
        exact ⟨[], List.not_mem_nil, .inl ⟨skipped, rfl, hskipped⟩⟩
      · rw [if_pos (by simpa using hc)] at hskipped
        exact InComment.cons hc hskipped
    | false =>
      unfold skipBlanks
      rw [if_neg Bool.false_ne_true]
      split
      · rename_i hsep
        obtain ⟨skipped, rest, rfl, heq, hskipped, hrest⟩ := ih false (p.after c)
        exact ⟨c :: skipped, rest, rfl, heq, .separator hsep hskipped, hrest⟩
      · rename_i hsep
        split
        · rename_i hslash
          obtain ⟨skipped, rest, rfl, heq, hskipped, hrest⟩ := ih true (p.after c)
          rw [Bool.and_eq_true, beq_iff_eq, beq_iff_eq] at hslash
          obtain ⟨rfl, hnext⟩ := hslash
          exact ⟨'/' :: skipped, rest, rfl, heq, InComment.opened hskipped hnext, hrest⟩
        · rename_i hslash
          exact ⟨[], c :: cs, rfl, rfl, .nil, by simpa using hsep, by simpa using hslash⟩

/-! ## One token -/

namespace Piece

/-- What stands at the front of a text: a symbol of one character or two, a string, a word, a number,
    or nothing that starts a token. -/
theorem first_cases {P : Piece → Prop} (c : Char) (cs : List Char)
    (hshort : ∀ s, P { kind := .symbol s, taken := [c], rest := cs })
    (hlong : ∀ s rest, cs = '=' :: rest → P { kind := .symbol s, taken := [c, '='], rest := rest })
    (hstring : c = '\x22' → P (string c cs)) (hword : P (word c cs)) (hnumber : P (number c cs))
    (hinvalid : P { kind := .invalid .unexpectedCharacter, taken := [c], rest := cs }) :
    P (first c cs) := by
  unfold first
  split
  · unfold extensible
    split
    · exact hlong _ _ rfl
    · exact hshort _
  · split
    · exact hshort _
    · split
      · rename_i hquote
        exact hstring (by simpa using hquote)
      · split
        · exact hshort _
        · split
          · exact hword
          · split
            · exact hnumber
            · exact hinvalid

/-- The piece takes some characters off the front of the text, and leaves the others. -/
def Splits (cs : List Char) (p : Piece) : Prop := p.taken ≠ [] ∧ cs = p.taken ++ p.rest

theorem string_splits (c : Char) (cs : List Char) : (string c cs).Splits (c :: cs) := by
  have hcs := List.takeWhile_append_dropWhile (p := (· != '\x22')) (l := cs)
  unfold string
  split
  · rename_i h
    rw [h, List.append_nil] at hcs
    exact ⟨List.cons_ne_nil _ _, by rw [hcs, List.append_nil]⟩
  · rename_i quote rest h
    rw [h] at hcs
    refine ⟨List.cons_ne_nil _ _, ?_⟩
    conv => lhs; rw [← hcs]
    simp

theorem number_splits (c : Char) (cs : List Char) : (number c cs).Splits (c :: cs) := by
  have hcs := List.takeWhile_append_dropWhile (p := Char.isDigit) (l := cs)
  unfold number
  split
  · rename_i d more h
    rw [h] at hcs
    have hmore := List.takeWhile_append_dropWhile (p := Char.isDigit) (l := more)
    split
    · refine ⟨List.cons_ne_nil _ _, ?_⟩
      conv => lhs; rw [← hcs, ← hmore]
      simp
    · exact ⟨List.cons_ne_nil _ _, by simp [hcs]⟩
  · exact ⟨List.cons_ne_nil _ _, by simp [hcs]⟩

theorem first_splits (c : Char) (cs : List Char) : (first c cs).Splits (c :: cs) := by
  refine first_cases c cs (fun s => ⟨List.cons_ne_nil _ _, rfl⟩) ?_ (fun _ => string_splits c cs) ?_
    (number_splits c cs) ⟨List.cons_ne_nil _ _, rfl⟩
  · rintro s rest rfl
    exact ⟨List.cons_ne_nil _ _, rfl⟩
  · exact ⟨List.cons_ne_nil _ _, by simp [word]⟩

end Piece

/-- What the characters that a token covers have to do with its lexeme. A string stands between two
    quotes, and the token that closes the list covers nothing, one character that starts no
    token, or a string that lacks its second quote. -/
def Token.Covers (t : Token) (cs : List Char) : Prop :=
  match t.kind with
  | .string => '\x22' ∉ t.lexeme.toList ∧ cs = '\x22' :: (t.lexeme.toList ++ ['\x22'])
  | .endOfFile => cs = []
  | .invalid .unexpectedCharacter => ∃ c, cs = [c]
  | .invalid .unterminatedString => ∃ body, '\x22' ∉ body ∧ cs = '\x22' :: body
  | _ => cs = t.lexeme.toList

theorem not_mem_takeWhile_ne {a : Char} (cs : List Char) : a ∉ cs.takeWhile (· != a) := by
  intro h
  simpa using List.mem_takeWhile_imp h

namespace Piece

theorem string_covers (cs : List Char) (span : Span) :
    Token.Covers ⟨(string '\x22' cs).kind, (string '\x22' cs).lexeme, span⟩
      (string '\x22' cs).taken := by
  have hbody := not_mem_takeWhile_ne (a := '\x22') cs
  unfold string
  split
  · exact ⟨_, hbody, rfl⟩
  · rename_i quote rest h
    have hquote := List.head?_dropWhile_not (· != '\x22') cs
    rw [h] at hquote
    obtain rfl : quote = '\x22' := by simpa using hquote
    simp [Token.Covers, lexeme, hbody]

theorem word_kind (c : Char) (cs : List Char) :
    (word c cs).kind = .name ∨ ∃ k, (word c cs).kind = .keyword k := by
  cases hk : Keyword.ofWord? (String.ofList (c :: cs.takeWhile Text.continuesName)) with
  | none => exact .inl (by simp only [word, hk, Option.map_none, Option.getD_none])
  | some k => exact .inr ⟨k, by simp only [word, hk, Option.map_some, Option.getD_some]⟩

theorem word_covers (c : Char) (cs : List Char) (span : Span) :
    Token.Covers ⟨(word c cs).kind, (word c cs).lexeme, span⟩ (word c cs).taken := by
  rcases word_kind c cs with hk | ⟨k, hk⟩
  · simp [Token.Covers, lexeme, hk]
  · simp [Token.Covers, lexeme, hk]

theorem number_covers (c : Char) (cs : List Char) (span : Span) :
    Token.Covers ⟨(number c cs).kind, (number c cs).lexeme, span⟩ (number c cs).taken := by
  unfold number
  split
  · split
    · simp [Token.Covers, lexeme]
    · simp [Token.Covers, lexeme]
  · simp [Token.Covers, lexeme]

theorem first_covers (c : Char) (cs : List Char) (span : Span) :
    Token.Covers ⟨(first c cs).kind, (first c cs).lexeme, span⟩ (first c cs).taken := by
  refine first_cases (P := fun p => Token.Covers ⟨p.kind, p.lexeme, span⟩ p.taken) c cs ?_ ?_ ?_ ?_ ?_ ?_
  · intro s
    simp [Token.Covers, lexeme]
  · intro s rest _
    simp [Token.Covers, lexeme]
  · rintro rfl
    exact string_covers cs span
  · exact word_covers c cs span
  · exact number_covers c cs span
  · exact ⟨c, rfl⟩

theorem word_inner (c : Char) (cs : List Char) : (word c cs).kind.closes = false := by
  rcases word_kind c cs with hk | ⟨k, hk⟩
  · rw [hk]
    rfl
  · rw [hk]
    rfl

theorem number_inner (c : Char) (cs : List Char) : (number c cs).kind.closes = false := by
  unfold number
  split
  · split <;> rfl
  · rfl

/-- A piece that closes the list takes all that is left, unless it is a character that starts no
    token. -/
theorem rest_eq_nil (c : Char) (cs : List Char) (hcloses : (first c cs).kind.closes = true)
    (hkind : (first c cs).kind ≠ .invalid .unexpectedCharacter) : (first c cs).rest = [] := by
  revert hcloses hkind
  refine first_cases (P := fun p => p.kind.closes = true → p.kind ≠ .invalid .unexpectedCharacter →
    p.rest = []) c cs (fun _ h => nomatch h) (fun _ _ _ h => nomatch h) (fun _ => ?_) ?_ ?_
    (fun _ h => absurd rfl h)
  · unfold string
    split
    · exact fun _ _ => rfl
    · exact fun h => nomatch h
  · exact fun h => nomatch (word_inner c cs).symm.trans h
  · exact fun h => nomatch (number_inner c cs).symm.trans h

end Piece

/-! ## All tokens -/

/-- A token covers the text from `start` to `stop`. All that stands between `prev`, where the token
    before it stops, and `start` are separators and comments. -/
structure Token.Cut (file : String) (text : List Char) (prev start stop : Nat) (t : Token) :
    Prop where
  order : prev ≤ start ∧ start ≤ stop ∧ stop ≤ text.length
  gap : Blank (text.drop start) (text.extract prev start)
  bare : Bare (text.drop start)
  covers : t.Covers (text.extract start stop)
  span : t.span = ⟨file, .atOffset text start, .atOffset text stop⟩

/-- The tokens cover the text from the offset `prev` on, one after the other. The last one closes the
    list, and no other does; it stops at the end of the text unless there is a character that
    starts no token. -/
inductive Partition (file : String) (text : List Char) : (prev : Nat) → List Token → Prop where
  | last {prev start stop : Nat} {t : Token} (cut : t.Cut file text prev start stop)
      (closes : t.kind.closes = true)
      (complete : t.kind ≠ .invalid .unexpectedCharacter → stop = text.length) :
      Partition file text prev [t]
  | next {prev start stop : Nat} {t : Token} {ts : List Token} (cut : t.Cut file text prev start stop)
      (inner : t.kind.closes = false) (rest : Partition file text stop ts) :
      Partition file text prev (t :: ts)

theorem extract_append {α : Type} (as bs cs : List α) :
    (as ++ bs ++ cs).extract as.length (as ++ bs).length = bs := by
  rw [List.extract_eq_take_drop, List.append_assoc, List.drop_left, List.length_append,
    Nat.add_sub_cancel_left, List.take_left]

/-- A token at its place in a text that is cut into four. -/
theorem Token.Cut.of_append (file : String) (before : List Char) {skipped : List Char}
    (taken rest : List Char) {t : Token}
    (hgap : Blank (taken ++ rest) skipped) (hbare : Bare (taken ++ rest)) (hcovers : t.Covers taken)
    (hspan : t.span = ⟨file, Pos.first.afterAll (before ++ skipped),
      Pos.first.afterAll (before ++ skipped ++ taken)⟩) :
    t.Cut file (before ++ skipped ++ taken ++ rest) before.length (before ++ skipped).length
      (before ++ skipped ++ taken).length := by
  refine ⟨by simp, ?_, ?_, ?_, ?_⟩
  · rw [List.append_assoc _ taken, extract_append, List.drop_left]
    exact hgap
  · rw [List.append_assoc _ taken, List.drop_left]
    exact hbare
  · rw [extract_append]
    exact hcovers
  · rw [hspan, Pos.atOffset_append, List.append_assoc _ taken, Pos.atOffset_append]

/-- The induction is on the rounds; `before` is what the tokens before cover. -/
theorem scanFrom_partition (file : String) {rounds : Nat} (before cs : List Char)
    (h : cs.length < rounds) :
    Partition file (before ++ cs) before.length
      (scanFrom file rounds (Pos.first.afterAll before) cs) := by
  induction rounds generalizing before cs with
  | zero => exact nomatch h
  | succ rounds ih =>
    obtain ⟨skipped, rest, rfl, heq, hskipped, hbare⟩ := skipBlanks_eq false (Pos.first.afterAll before) cs
    unfold scanFrom
    rw [heq, ← Pos.afterAll_append]
    cases rest with
    | nil =>
      have hcut := Token.Cut.of_append file before [] []
        (t := ⟨.endOfFile, "end of file", ⟨file, Pos.first.afterAll (before ++ skipped),
          Pos.first.afterAll (before ++ skipped)⟩⟩) hskipped hbare rfl (by simp)
      simp only [List.append_nil] at hcut ⊢
      exact .last hcut rfl fun _ => rfl
    | cons c rest =>
      dsimp only
      obtain ⟨hne, hsplit⟩ := Piece.first_splits c rest
      have hcovers := Piece.first_covers c rest
      have hcomplete := Piece.rest_eq_nil c rest
      generalize Piece.first c rest = piece at hne hsplit hcovers hcomplete
      rw [hsplit] at h hskipped hbare ⊢
      rw [← Pos.afterAll_append]
      have hcut := Token.Cut.of_append file before piece.taken piece.rest hskipped hbare
        (hcovers _) rfl
      rw [← List.append_assoc, ← List.append_assoc]
      split
      · rename_i hcloses
        refine .last hcut hcloses fun hkind => ?_
        rw [hcomplete hcloses hkind, List.append_nil]
      · rename_i hcloses
        refine .next hcut (by simpa using hcloses) (ih _ _ ?_)
        have := List.length_pos_iff.2 hne
        simp only [List.length_append] at h
        omega

/-- The tokens of a source text cover it, and know their places. -/
theorem scan_partition (file source : String) :
    Partition file source.toList 0 (scan file source) :=
  scanFrom_partition file [] source.toList (Nat.lt_succ_self _)

end Eleu
