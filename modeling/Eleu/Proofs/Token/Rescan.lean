import Eleu.Proofs.Token.Partition

/-! # Tokens survive being written out

    A token that is written out on its own, with a separator or nothing after it, is scanned as the
    same token again (`Token.Firm`). This has to be seen class by class: a word stays a word because
    a separator ends it, a symbol that an equals sign may extend is not followed by one, a number is
    not followed by a point, a slash is not followed by another one, and a string carries its own
    end. Every token that a scan yields is firm (`scan_firm`), so the tokens of a text, written out
    with a blank between any two of them, are scanned as they were (`scan_render`). -/

namespace Eleu

/-- The source text of a token that does not close the list. -/
def Token.written (t : Token) : String :=
  match t.kind with
  | .string => "\x22" ++ t.lexeme ++ "\x22"
  | _ => t.lexeme

/-- What a token is, without its place. -/
def Token.face (t : Token) : TokenKind × String := (t.kind, t.lexeme)

/-- The tokens before the one that closes the list. -/
def innerTokens (ts : List Token) : List Token := ts.filter fun t => !t.kind.closes

/-- The source texts of the tokens before the one that closes the list. -/
def tokenTexts (ts : List Token) : List String := (innerTokens ts).map Token.written

/-- The tokens written out, with a blank between any two of them. -/
def renderTokens (ts : List Token) : String := String.intercalate " " (tokenTexts ts)

/-! ## Characters that end a token -/

/-- A token that stands before this text ends there, whatever it is: the text is empty or starts with
    a separator. -/
def Apart (rest : List Char) : Prop := ∀ c ∈ rest.head?, isSeparator c = true

theorem apart_nil : Apart [] := fun _ h => nomatch h

theorem apart_blank (rest : List Char) : Apart (' ' :: rest) := by
  rintro c ⟨⟩
  rfl

/-- A class of characters that has no separator. -/
def Solid (p : Char → Bool) : Prop := ∀ c, isSeparator c = true → p c = false

theorem solid_of_four {p : Char → Bool}
    (h : p ' ' = false ∧ p '\t' = false ∧ p '\r' = false ∧ p '\n' = false) : Solid p := by
  intro c hc
  simp only [isSeparator, Bool.or_eq_true, beq_iff_eq] at hc
  rcases hc with ((rfl | rfl) | rfl) | rfl
  · exact h.1
  · exact h.2.1
  · exact h.2.2.1
  · exact h.2.2.2

theorem solid_continuesName : Solid Text.continuesName := solid_of_four (by decide)

theorem solid_isDigit : Solid Char.isDigit := solid_of_four (by decide)

section Runs

variable {p : Char → Bool} {rest : List Char}

theorem Apart.takeWhile (h : Apart rest) (hp : Solid p) : rest.takeWhile p = [] := by
  cases rest with
  | nil => rfl
  | cons c rest => rw [List.takeWhile_cons, hp c (h c rfl), if_neg Bool.false_ne_true]

theorem Apart.dropWhile (h : Apart rest) (hp : Solid p) : rest.dropWhile p = rest := by
  cases rest with
  | nil => rfl
  | cons c rest => rw [List.dropWhile_cons, hp c (h c rfl), if_neg Bool.false_ne_true]

/-- A run of characters of a class ends where the separator is. -/
theorem Apart.run (h : Apart rest) (hp : Solid p) (cs : List Char) :
    (cs.takeWhile p ++ rest).takeWhile p = cs.takeWhile p
      ∧ (cs.takeWhile p ++ rest).dropWhile p = rest := by
  have hall : ∀ a ∈ cs.takeWhile p, p a = true := fun a ha => List.mem_takeWhile_imp ha
  rw [List.takeWhile_append_of_pos hall, List.dropWhile_append_of_pos hall, h.takeWhile hp,
    h.dropWhile hp, List.append_nil]
  exact ⟨rfl, rfl⟩

/-- No fraction follows. -/
theorem Apart.ne_point (h : Apart rest) (d : Char) (more : List Char) : rest ≠ '.' :: d :: more := by
  rintro rfl
  exact nomatch h '.' rfl

end Runs

/-! ## One token -/

namespace Piece

variable {c : Char} {cs rest : List Char}

/-- The piece before another text. -/
def before (p : Piece) (rest : List Char) : Piece := { p with rest := rest }

/-- The piece `p` was cut off with `f` from `c` and what follows; with `f` it is cut off again when
    only its own characters and `rest` follow. -/
def Again (f : Char → List Char → Piece) (c : Char) (rest : List Char) (p : Piece) : Prop :=
  p.taken.head? = some c ∧ f c (p.taken.tail ++ rest) = p.before rest

theorem word_again (h : Apart rest) : Again word c rest (word c cs) := by
  obtain ⟨htake, hdrop⟩ := h.run solid_continuesName cs
  refine ⟨rfl, ?_⟩
  show word c (cs.takeWhile Text.continuesName ++ rest) = (word c cs).before rest
  unfold word before
  rw [htake, hdrop]

/-- What follows the digits of a number does not go on with a point and a digit. -/
theorem number_whole (h : ∀ d more, cs.dropWhile Char.isDigit = '.' :: d :: more → d.isDigit = false) :
    number c cs = ⟨.number, c :: cs.takeWhile Char.isDigit, cs.dropWhile Char.isDigit⟩ := by
  unfold number
  dsimp only
  split
  · rename_i d more heq
    rw [h d more heq, if_neg Bool.false_ne_true, heq]
  · rfl

theorem number_again (h : Apart rest) : Again number c rest (number c cs) := by
  obtain ⟨htake, hdrop⟩ := h.run solid_isDigit cs
  have hwhole : number c (cs.takeWhile Char.isDigit ++ rest)
      = ⟨.number, c :: cs.takeWhile Char.isDigit, rest⟩ := by
    rw [number_whole, htake, hdrop]
    intro d more heq
    exact absurd (hdrop.symm.trans heq) (h.ne_point d more)
  by_cases hfraction : ∃ d more, cs.dropWhile Char.isDigit = '.' :: d :: more ∧ d.isDigit = true
  · -- the digits, the point and the digits after it are met again
    obtain ⟨d, more, heq, hd⟩ := hfraction
    have hpiece : number c cs
        = ⟨.number, c :: cs.takeWhile Char.isDigit ++ '.' :: d :: more.takeWhile Char.isDigit,
          more.dropWhile Char.isDigit⟩ := by
      unfold number
      rw [heq]
      exact if_pos hd
    obtain ⟨htake', hdrop'⟩ := h.run solid_isDigit more
    have hall : ∀ a ∈ cs.takeWhile Char.isDigit, a.isDigit = true :=
      fun a ha => List.mem_takeWhile_imp ha
    have hpoint : Char.isDigit '.' = false := by decide
    rw [hpiece]
    refine ⟨rfl, ?_⟩
    show number c (cs.takeWhile Char.isDigit ++ '.' :: d :: more.takeWhile Char.isDigit ++ rest) = _
    rw [List.append_assoc]
    unfold number
    rw [List.takeWhile_append_of_pos hall, List.dropWhile_append_of_pos hall]
    simp only [List.cons_append, List.takeWhile_cons, List.dropWhile_cons, hpoint, hd,
      Bool.false_eq_true, if_false, if_true, List.append_nil, htake', hdrop', before]
  · have hpiece : number c cs
        = ⟨.number, c :: cs.takeWhile Char.isDigit, cs.dropWhile Char.isDigit⟩ := by
      refine number_whole fun d more heq => ?_
      cases hd : d.isDigit with
      | false => rfl
      | true => exact absurd ⟨d, more, heq, hd⟩ hfraction
    rw [hpiece]
    exact ⟨rfl, hwhole⟩

/-- A string ends at its second quote, whatever follows. -/
theorem string_again (hkind : (string c cs).kind = .string) : Again string c rest (string c cs) := by
  have hall : ∀ a ∈ cs.takeWhile (· != '\x22'), (a != '\x22') = true :=
    fun a ha => List.mem_takeWhile_imp (p := (· != '\x22')) ha
  unfold string at hkind ⊢
  dsimp only at hkind ⊢
  split
  · rename_i heq
    rw [heq] at hkind
    exact nomatch hkind
  · rename_i quote more heq
    have hquote : (quote != '\x22') = false := by
      have := List.head?_dropWhile_not (· != '\x22') cs
      rw [heq] at this
      simpa using this
    refine ⟨rfl, ?_⟩
    simp only [List.tail_cons, List.append_assoc, List.takeWhile_append_of_pos hall,
      List.dropWhile_append_of_pos hall, List.singleton_append, List.takeWhile_cons, List.dropWhile_cons,
      hquote, Bool.false_eq_true, if_false, List.append_nil, before]

theorem extensible_again (short long : Symbol) (h : Apart rest) :
    Again (extensible · short long ·) c rest (extensible c short long cs) := by
  have hplain : extensible c short long rest = ⟨.symbol short, [c], rest⟩ := by
    unfold extensible
    split
    · exact nomatch h '=' rfl
    · rfl
  unfold extensible
  split
  · exact ⟨rfl, rfl⟩
  · exact ⟨rfl, hplain⟩

/-- Two ways to cut a piece off that agree on texts that start with `c`. -/
theorem Again.of_eq {f g : Char → List Char → Piece} (heq : ∀ ds, f c ds = g c ds)
    (h : Again g c rest (g c cs)) : Again f c rest (f c cs) := by
  rw [heq cs]
  exact ⟨h.1, (heq _).trans h.2⟩

/-- A token of one character. -/
theorem single_again (k : TokenKind) : Again (fun c cs => ⟨k, [c], cs⟩) c rest ⟨k, [c], cs⟩ := ⟨rfl, rfl⟩

/-- A token is cut off again from its own text. Which kind of token it is, is decided by its first
    character. -/
theorem first_again (hinner : (first c cs).kind.closes = false) (h : Apart rest) :
    Again first c rest (first c cs) := by
  cases hext : Symbol.ofExtensible? c with
  | some forms =>
    obtain ⟨short, long⟩ := forms
    have heq : ∀ ds, first c ds = extensible c short long ds := fun ds => by simp only [first, hext]
    exact .of_eq heq (extensible_again short long h)
  | none =>
    by_cases hslash : (c == '/') = true
    · have heq : ∀ ds, first c ds = ⟨.symbol .slash, [c], ds⟩ := fun ds => by
        simp only [first, hext, hslash, if_true]
      exact .of_eq heq (single_again _)
    by_cases hquote : (c == '\x22') = true
    · have heq : ∀ ds, first c ds = string c ds := fun ds => by
        simp only [first, hext, hslash, hquote, if_true, Bool.false_eq_true, if_false]
      refine .of_eq heq (string_again ?_)
      rw [heq] at hinner
      unfold string at hinner ⊢
      dsimp only at hinner ⊢
      split
      · rename_i hend
        rw [hend] at hinner
        exact nomatch hinner
      · rfl
    cases hsymbol : Symbol.ofChar? c with
    | some s =>
      have heq : ∀ ds, first c ds = ⟨.symbol s, [c], ds⟩ := fun ds => by
        simp only [first, hext, hslash, hquote, hsymbol, Bool.false_eq_true, if_false]
      exact .of_eq heq (single_again _)
    | none =>
      by_cases hname : Text.startsName c = true
      · have heq : ∀ ds, first c ds = word c ds := fun ds => by
          simp only [first, hext, hslash, hquote, hsymbol, hname, Bool.false_eq_true, if_false,
            if_true]
        exact .of_eq heq (word_again h)
      by_cases hdigit : c.isDigit = true
      · have heq : ∀ ds, first c ds = number c ds := fun ds => by
          simp only [first, hext, hslash, hquote, hsymbol, hname, hdigit, Bool.false_eq_true,
            if_false, if_true]
        exact .of_eq heq (number_again h)
      · -- a character that starts no token closes the list
        have heq : first c cs = ⟨.invalid .unexpectedCharacter, [c], cs⟩ := by
          simp only [first, hext, hslash, hquote, hsymbol, hname, hdigit, Bool.false_eq_true,
            if_false]
        rw [heq] at hinner
        exact nomatch hinner

/-- A slash that starts a token is the whole token. -/
theorem first_slash (cs : List Char) : (first '/' cs).taken = ['/'] := rfl

end Piece

/-- A token that does not close the list covers its source text. -/
theorem Token.Covers.written {t : Token} {cs : List Char} (h : t.Covers cs)
    (hinner : t.kind.closes = false) : t.written.toList = cs := by
  unfold Token.Covers at h
  unfold Token.written
  cases hk : t.kind with
  | string =>
    rw [hk] at h
    simp only [String.toList_append, h.2]
    rfl
  | symbol s | keyword k | name | number =>
    rw [hk] at h
    exact h.symm
  | invalid e => exact nomatch hk ▸ hinner
  | endOfFile => exact nomatch hk ▸ hinner

/-- A token that is scanned again from its source text, if a separator or nothing follows. -/
def Token.Firm (t : Token) : Prop :=
  ∃ c body, t.written.toList = c :: body ∧ isSeparator c = false ∧ (c = '/' → body = [])
    ∧ ∀ rest, Apart rest → (Piece.first c (body ++ rest)).kind = t.kind
        ∧ (Piece.first c (body ++ rest)).lexeme = t.lexeme
        ∧ (Piece.first c (body ++ rest)).rest = rest

/-- The token at the front of a text is firm. -/
theorem Piece.first_firm (c : Char) (cs : List Char) (span : Span) (hsep : isSeparator c = false)
    (hinner : (first c cs).kind.closes = false) :
    Token.Firm ⟨(first c cs).kind, (first c cs).lexeme, span⟩ := by
  have hwritten := (first_covers c cs span).written hinner
  obtain ⟨hhead, -⟩ := first_again hinner apart_nil
  obtain ⟨d, body, htaken⟩ : ∃ d body, (first c cs).taken = d :: body :=
    List.exists_cons_of_ne_nil (first_splits c cs).1
  obtain rfl : d = c := by
    rw [htaken] at hhead
    exact Option.some.inj hhead
  refine ⟨d, body, hwritten.trans htaken, hsep, ?_, fun rest hrest => ?_⟩
  · rintro rfl
    exact (List.cons.inj (htaken.symm.trans (first_slash cs))).2
  · obtain ⟨-, hagain⟩ := first_again hinner hrest
    rw [htaken, List.tail_cons] at hagain
    rw [hagain]
    exact ⟨rfl, rfl, rfl⟩

/-! ## All tokens -/

/-- The induction is on the rounds. -/
theorem scanFrom_firm (file : String) (rounds : Nat) (p : Pos) (cs : List Char) :
    ∀ t ∈ scanFrom file rounds p cs, t.kind.closes = false → t.Firm := by
  induction rounds generalizing p cs with
  | zero =>
    intro t ht
    cases ht
  | succ rounds ih =>
    intro t ht hinner
    obtain ⟨skipped, rest, -, heq, -, hbare⟩ := skipBlanks_eq false p cs
    unfold scanFrom at ht
    rw [heq] at ht
    cases rest with
    | nil =>
      rw [List.mem_singleton.1 ht] at hinner
      cases hinner
    | cons c rest =>
      dsimp only at ht
      split at ht
      · rename_i hcloses
        rw [List.mem_singleton.1 ht] at hinner
        cases hcloses.symm.trans hinner
      · rename_i hopen
        rcases List.mem_cons.1 ht with rfl | ht
        · exact Piece.first_firm c rest _ hbare.1 (by simpa using hopen)
        · exact ih _ _ t ht hinner

/-- Every token of a text that does not close its list is firm. -/
theorem scan_firm (file source : String) : ∀ t ∈ innerTokens (scan file source), t.Firm := by
  intro t ht
  obtain ⟨hmem, hinner⟩ := List.mem_filter.1 ht
  exact scanFrom_firm file _ _ _ t hmem (by simpa using hinner)

/-- The characters of tokens written out with blanks between them. -/
def blankSeparated : List Token → List Char
  | [] => []
  | [t] => t.written.toList
  | t :: u :: ts => t.written.toList ++ ' ' :: blankSeparated (u :: ts)

theorem toList_intercalate_written (ts : List Token) :
    (String.intercalate " " (ts.map Token.written)).toList = blankSeparated ts := by
  rw [String.toList_intercalate]
  induction ts with
  | nil => rfl
  | cons t ts ih =>
    cases ts with
    | nil => simp [blankSeparated, List.intercalate]
    | cons u ts =>
      rw [blankSeparated, ← ih]
      simp [List.intercalate]

/-- What closes a list of tokens, with its description in the place of a lexeme. -/
def closingFace (k : TokenKind) : TokenKind × String :=
  (k, match k with
    | .invalid e => e.message
    | _ => "end of file")

/-- What a firm token covers is not skipped as a blank or as a comment. -/
theorem skipBlanks_firm {c : Char} {body rest : List Char} (p : Pos) (hsep : isSeparator c = false)
    (hslash : c = '/' → body = []) (hrest : Apart rest) :
    skipBlanks false p (c :: (body ++ rest)) = (p, c :: (body ++ rest)) := by
  have hcomment : (c == '/' && (body ++ rest).head? == some '/') = false := by
    by_cases hc : c = '/'
    · rw [hslash hc, List.nil_append]
      cases rest with
      | nil => simp
      | cons d rest =>
        have hd := hrest d rfl
        have hne : d ≠ '/' := fun h => by
          rw [h] at hd
          exact nomatch hd
        simp [hne]
    · simp [hc]
  rw [skipBlanks, if_neg Bool.false_ne_true, hsep, if_neg Bool.false_ne_true, hcomment,
    if_neg Bool.false_ne_true]

/-- One firm token is scanned, and then what follows it. -/
theorem scanFrom_cons {t : Token} (h : t.Firm) (hinner : t.kind.closes = false) (file : String)
    (rounds : Nat) (p : Pos) {rest : List Char} (hrest : Apart rest) :
    ∃ q, (scanFrom file (rounds + 1) p (t.written.toList ++ rest)).map Token.face
      = t.face :: (scanFrom file rounds q rest).map Token.face := by
  obtain ⟨c, body, hwritten, hsep, hslash, hagain⟩ := h
  obtain ⟨hkind, hlexeme, hleft⟩ := hagain rest hrest
  refine ⟨p.afterAll (Piece.first c (body ++ rest)).taken, ?_⟩
  rw [hwritten, List.cons_append, scanFrom, skipBlanks_firm p hsep hslash hrest]
  dsimp only
  rw [hkind, hlexeme, hleft, hinner, if_neg Bool.false_ne_true]
  rfl

/-- Firm tokens written out are scanned again. The induction is on the tokens; the blank before the
    next one is skipped without a round of its own. -/
theorem scanFrom_blankSeparated (file : String) (ts : List Token)
    (h : ∀ t ∈ ts, t.Firm ∧ t.kind.closes = false) (rounds : Nat) (p : Pos)
    (hrounds : ts.length < rounds) :
    (scanFrom file rounds p (blankSeparated ts)).map Token.face = ts.map Token.face ++ [closingFace .endOfFile] := by
  induction ts generalizing rounds p with
  | nil =>
    obtain ⟨rounds, rfl⟩ : ∃ n, rounds = n + 1 := ⟨rounds - 1, by omega⟩
    rfl
  | cons t ts ih =>
    obtain ⟨rounds, rfl⟩ : ∃ n, rounds = n + 1 := ⟨rounds - 1, by omega⟩
    obtain ⟨hfirm, hinner⟩ := h t (.head _)
    have htail := ih fun u hu => h u (.tail _ hu)
    have hlen : ts.length < rounds := by simpa using hrounds
    cases ts with
    | nil =>
      obtain ⟨q, hq⟩ := scanFrom_cons hfirm hinner file rounds p apart_nil
      rw [List.append_nil] at hq
      rw [blankSeparated, hq]
      exact congrArg (t.face :: ·) (htail rounds q hlen)
    | cons u us =>
      obtain ⟨q, hq⟩ :=
        scanFrom_cons hfirm hinner file rounds p (apart_blank (blankSeparated (u :: us)))
      rw [blankSeparated, hq]
      obtain ⟨rounds, rfl⟩ : ∃ n, rounds = n + 1 := ⟨rounds - 1, by omega⟩
      have hblank : scanFrom file (rounds + 1) q (' ' :: blankSeparated (u :: us))
          = scanFrom file (rounds + 1) (q.after ' ') (blankSeparated (u :: us)) := rfl
      rw [hblank]
      exact congrArg (t.face :: ·) (htail _ _ hlen)

theorem Token.Firm.length_pos {t : Token} (h : t.Firm) : 0 < t.written.toList.length := by
  obtain ⟨c, body, hwritten, -⟩ := h
  simp [hwritten]

theorem length_le_blankSeparated (ts : List Token) (h : ∀ t ∈ ts, t.Firm) :
    ts.length ≤ (blankSeparated ts).length := by
  induction ts with
  | nil => exact Nat.le_refl _
  | cons t ts ih =>
    have ht := (h t (.head _)).length_pos
    have hts := ih fun u hu => h u (.tail _ hu)
    cases ts with
    | nil => exact ht
    | cons u us =>
      simp only [blankSeparated, List.length_append, List.length_cons] at hts ⊢
      omega

/-- The tokens of a text, written out with blanks between them, are scanned again up to the one that
    closes the list; there the text is at its end. -/
theorem scan_render (file file' source : String) :
    (scan file' (renderTokens (scan file source))).map Token.face
      = (innerTokens (scan file source)).map Token.face ++ [closingFace .endOfFile] := by
  have hfirm := scan_firm file source
  have hchars : (renderTokens (scan file source)).toList
      = blankSeparated (innerTokens (scan file source)) := toList_intercalate_written _
  show (scanFrom file' ((renderTokens (scan file source)).toList.length + 1) .first
    (renderTokens (scan file source)).toList).map Token.face = _
  rw [hchars]
  refine scanFrom_blankSeparated file' _ (fun t ht => ⟨hfirm t ht, ?_⟩) _ _
    (Nat.lt_succ_of_le (length_le_blankSeparated _ hfirm))
  simpa using (List.mem_filter.1 ht).2

/-! ## What closes the list -/

/-- How a list of tokens is closed. -/
def closingKind (ts : List Token) : Option TokenKind := ts.getLast?.map Token.kind

/-- A piece that closes the list is a lexical error. -/
theorem Piece.first_closing (c : Char) (cs : List Char) (hcloses : (first c cs).kind.closes = true) :
    ((first c cs).kind, (first c cs).lexeme) = closingFace (first c cs).kind := by
  have hcovers := first_covers c cs .empty
  unfold lexeme closingFace
  cases hk : (first c cs).kind with
  | invalid e => rfl
  | endOfFile =>
    -- it would cover nothing, and every piece covers something
    rw [hk] at hcovers
    exact absurd hcovers (first_splits c cs).1
  | symbol | keyword | name | string | number =>
    rw [hk] at hcloses
    exact nomatch hcloses

theorem scanFrom_closing (file : String) (rounds : Nat) (p : Pos) (cs : List Char) :
    ∀ t ∈ scanFrom file rounds p cs, t.kind.closes = true → t.face = closingFace t.kind := by
  induction rounds generalizing p cs with
  | zero => exact fun _ h => nomatch h
  | succ rounds ih =>
    intro t ht hcloses
    unfold scanFrom at ht
    split at ht
    · rw [List.mem_singleton.1 ht]
      rfl
    · dsimp only at ht
      split at ht
      · rename_i hpiece
        rw [List.mem_singleton.1 ht]
        exact Piece.first_closing _ _ hpiece
      · rename_i hpiece
        rcases List.mem_cons.1 ht with rfl | ht
        · exact absurd hcloses hpiece
        · exact ih _ _ t ht hcloses

/-- In a list that covers a text only the last token is not an inner one. -/
theorem Partition.inner {file : String} {text : List Char} {prev : Nat} {ts : List Token}
    (h : Partition file text prev ts) :
    ∃ t, ts = innerTokens ts ++ [t] ∧ t.kind.closes = true := by
  induction h with
  | @last _ _ _ t _ hcloses _ => exact ⟨t, by simp [innerTokens, hcloses], hcloses⟩
  | @next _ _ _ u ts _ hinner _ ih =>
    obtain ⟨t, hts, hcloses⟩ := ih
    refine ⟨t, ?_, hcloses⟩
    have hu : innerTokens (u :: ts) = u :: innerTokens ts := List.filter_cons_of_pos (by simp [hinner])
    rw [hu, List.cons_append, ← hts]

/-- The tokens of a text are given by those before the last one and by how the list is closed. -/
theorem scan_faces (file source : String) :
    ∃ k, closingKind (scan file source) = some k ∧ (scan file source).map Token.face
      = (innerTokens (scan file source)).map Token.face ++ [closingFace k] := by
  obtain ⟨t, hts, hcloses⟩ :=
    (scanFrom_partition file [] source.toList (Nat.lt_succ_self source.toList.length)).inner
  have hmem : t ∈ scan file source := by
    show t ∈ scanFrom file (source.toList.length + 1) .first source.toList
    exact hts ▸ List.mem_append_right _ (List.mem_singleton_self t)
  have hface := scanFrom_closing file _ _ _ t hmem hcloses
  have hscan : scan file source = innerTokens (scan file source) ++ [t] := hts
  refine ⟨t.kind, ?_, ?_⟩
  · rw [hscan, closingKind, List.getLast?_concat]
    rfl
  · rw [← hface]
    exact (congrArg (List.map Token.face) hscan).trans List.map_append

/-- Two texts whose tokens have the same source texts are scanned as tokens of the same kinds and
    lexemes. -/
theorem scan_faces_eq {file file' source source' : String}
    (htexts : tokenTexts (scan file source) = tokenTexts (scan file' source'))
    (hclosing : closingKind (scan file source) = closingKind (scan file' source')) :
    (scan file source).map Token.face = (scan file' source').map Token.face := by
  obtain ⟨k, hk, hfaces⟩ := scan_faces file source
  obtain ⟨k', hk', hfaces'⟩ := scan_faces file' source'
  obtain rfl : k = k' := Option.some.inj (hk.symm.trans (hclosing.trans hk'))
  -- both are what the scan of one and the same rendering gives
  have hrender : renderTokens (scan file source) = renderTokens (scan file' source') :=
    congrArg (String.intercalate " ") htexts
  have hinner := (scan_render file file source).symm.trans (hrender ▸ scan_render file' file source')
  rw [hfaces, hfaces', List.append_cancel_right hinner]

end Eleu
