import Eleu.Proofs.Tree.Accepted

/-! # Lexical errors

    A text that cannot be scanned to its end has a token list that is closed by a lexical error. The
    parser never gets past that token, and whatever it rejects while it stands there is reported as the
    lexical error. So the errors it has noted down are in order: first those of the grammar, then as many
    copies of the lexical error as there are items that were given up there (`Cursor.InOrder`). In the
    end there is one copy of it, in the last place (`squeeze_append_run`).

    A text is accepted only if its token list is closed by the end of the text and the parser has come to
    that token. -/

namespace Eleu

/-- The error is not a lexical one. -/
def Diagnostic.Grammatical (d : Diagnostic) : Prop := ∀ e, d.cause ≠ .lexical e

/-- The wording of an error that quotes a word of the text starts as it does without the quotation. -/
theorem head?_quoting {start word stop : String} {c : Char} (h : start.toList.head? = some c) :
    (start ++ word ++ stop).toList.head? = some c := by
  rw [String.toList_append, String.toList_append, List.head?_append, List.head?_append, h]
  rfl

/-- No error of the grammar has the wording of a lexical error. -/
theorem Diagnostic.Grammatical.message_ne {d : Diagnostic} (h : d.Grammatical) (e : LexicalError) :
    d.cause.message ≠ e.message := by
  -- lexical errors alone are worded with a 'u' in front
  have hlexical : e.message.toList.head? = some 'u' := by cases e <;> decide +kernel
  have hother : d.cause.message.toList.head? ≠ some 'u' := by
    unfold Grammatical at h
    cases hc : d.cause with
    | lexical e' => exact absurd hc (h e')
    | keywordAsName word =>
      have hfirst : (SyntaxError.keywordAsName word).message.toList.head? = some 'a' :=
        head?_quoting (by decide +kernel)
      rw [hfirst]
      decide
    | declarationAsBody word =>
      have hfirst : (SyntaxError.declarationAsBody word).message.toList.head? = some 'a' :=
        head?_quoting (by decide +kernel)
      rw [hfirst]
      decide
    | _ => decide +kernel
  intro heq
  rw [heq] at hother
  exact hother hlexical

/-! ## Errors in order -/

namespace Cursor

variable {c c' : Cursor} {d : Diagnostic}

/-- The errors of the grammar were noted down first, and after them only the lexical error at which the
    cursor stands. -/
def InOrder (c : Cursor) : Prop :=
  ∃ stuck earlier, c.reported = stuck ++ earlier ∧ (∀ d ∈ stuck, c.obstacle? = some d)
    ∧ ∀ d ∈ earlier, d.Grammatical

/-- The error is one that can be found where the cursor stands. -/
def Raises (c : Cursor) (d : Diagnostic) : Prop :=
  c.obstacle? = some d ∨ c.obstacle? = none ∧ d.Grammatical

theorem atEnd_of_obstacle (h : c.obstacle? = some d) : c.atEnd = true := by
  unfold obstacle? at h
  unfold atEnd
  cases hk : c.current.kind with
  | invalid e => rfl
  | symbol | keyword | name | string | number | endOfFile =>
    rw [hk] at h
    exact nomatch h

/-- The cursor does not get past the end. -/
theorem next_of_atEnd (h : c.atEnd = true) : c.next = c := by
  rw [next, if_pos h]

theorem recover_of_atEnd (h : c.atEnd = true) : c.recover = c := by
  have hskip : skipStatement c.previous c.rest = (c.previous, c.rest) := by
    unfold atEnd current at h
    cases hrest : c.rest with
    | nil => rfl
    | cons t ts =>
      rw [hrest] at h
      have ht : t.kind.closes = true := h
      rw [skipStatement, ht]
      rfl
  unfold recover
  rw [next_of_atEnd h]
  dsimp only
  rw [hskip]

/-- The errors stay in order while the cursor moves, as it does not move away from a lexical error. -/
theorem InOrder.moved (h : c.InOrder) (hr : c'.reported = c.reported)
    (ho : ∀ d, c.obstacle? = some d → c'.obstacle? = some d) : c'.InOrder := by
  obtain ⟨stuck, earlier, hreported, hstuck, hearlier⟩ := h
  exact ⟨stuck, earlier, hr.trans hreported, fun d hd => ho d (hstuck d hd), hearlier⟩

theorem InOrder.next (h : c.InOrder) : c.next.InOrder := by
  refine h.moved (reported_next c) fun d hd => ?_
  rw [next_of_atEnd (atEnd_of_obstacle hd)]
  exact hd

theorem InOrder.recover (h : c.InOrder) : c.recover.InOrder := by
  refine h.moved (reported_recover c) fun d hd => ?_
  rw [recover_of_atEnd (atEnd_of_obstacle hd)]
  exact hd

/-- An error that was found where the cursor stands is noted down. -/
theorem InOrder.report (h : c.InOrder) (hd : c.Raises d) :
    InOrder { c with reported := d :: c.reported } := by
  obtain ⟨stuck, earlier, hreported, hstuck, hearlier⟩ := h
  rcases hd with hd | ⟨hnone, hd⟩
  · refine ⟨d :: stuck, earlier, congrArg (d :: ·) hreported, ?_, hearlier⟩
    intro d' hd'
    cases hd' with
    | head => exact hd
    | tail _ hd' => exact hstuck d' hd'
  · -- nothing stood in the way so far, so all errors were those of the grammar
    have hnil : stuck = [] := by
      refine List.eq_nil_iff_forall_not_mem.2 fun d' hd' => ?_
      rw [hnone] at hstuck
      exact nomatch hstuck d' hd'
    subst hnil
    refine ⟨[], d :: earlier, congrArg (d :: ·) hreported, nofun, ?_⟩
    intro d' hd'
    cases hd' with
    | head => exact hd
    | tail _ hd' => exact hearlier d' hd'

end Cursor

namespace Parser

variable {α : Type}

/-- However the parser ends, it has kept the errors in order, and an error that it ends with is one that
    can be found there. -/
def Orderly (p : Parser α) : Prop :=
  ∀ c, c.InOrder → Ends (p c) (fun _ c' => c'.InOrder)
    fun i c' => c'.InOrder ∧ ∀ d, i = .error d → c'.Raises d

theorem orderly : Law true fun _ p _ => Orderly p where
  pure _ _ h := h
  bind hp hf c h := Ends.bind (hp c h) hf
  spent _ h := ⟨h, nofun⟩
  peek _ h := h
  previous _ h := h
  atEnd _ h := h
  advance _ h := h.next
  freshId _ h := h.moved rfl fun _ hd => hd
  reject span cause hcause c h := by
    rw [reject_apply]
    refine ⟨h, ?_⟩
    rintro d ⟨⟩
    cases ho : c.obstacle? with
    | some e => exact .inl ho
    | none => exact .inr ⟨ho, hcause⟩

theorem Orderly.recovering {p : Parser α} (hp : Orderly p) (r : Recovery) : Orderly (recovering r p) := by
  intro c h
  have hx := hp c h
  unfold Parser.recovering
  generalize p c = x at hx
  cases x with
  | ok a c' => exact hx
  | error i c' =>
    cases i with
    | outOfRounds => exact hx
    | error d =>
      cases r with
      | stop => exact hx
      | resume => exact (hx.1.report (hx.2 d rfl)).recover

/-- The errors of a whole program are in order. -/
theorem program_orderly (r : Recovery) (unit n : Nat) : Orderly (program r unit n) :=
  @Law.program _ _ orderly r r (fun hp => hp.recovering r) unit n

end Parser

/-! ## One copy of each error in a row -/

theorem mem_of_mem_squeeze {d : Diagnostic} {ds : List Diagnostic} (h : d ∈ squeeze ds) : d ∈ ds := by
  induction ds with
  | nil => exact h
  | cons first rest ih =>
    rw [squeeze] at h
    cases hs : squeeze rest with
    | nil =>
      rw [hs] at h
      exact List.mem_singleton.1 h ▸ .head _
    | cons e es =>
      rw [hs] at h ih
      dsimp only at h
      split at h
      · exact .tail _ (ih h)
      · cases h with
        | head => exact .head _
        | tail _ h => exact .tail _ (ih h)

/-- One copy is left of a run. -/
theorem squeeze_run {l : Diagnostic} {run : List Diagnostic} (h : ∀ d ∈ run, d = l) :
    squeeze (run ++ [l]) = [l] := by
  induction run with
  | nil => rfl
  | cons d run ih =>
    rw [List.cons_append, squeeze, ih fun d hd => h d (.tail _ hd)]
    exact if_pos (h d (.head _))

/-- One copy is left of a run at the end, after what is left of the errors before it. -/
theorem squeeze_append_run {l : Diagnostic} {ds run : List Diagnostic} (hds : ∀ d ∈ ds, d ≠ l)
    (hrun : ∀ d ∈ run, d = l) : squeeze (ds ++ (run ++ [l])) = squeeze ds ++ [l] := by
  induction ds with
  | nil => exact squeeze_run hrun
  | cons d ds ih =>
    rw [List.cons_append, squeeze, squeeze, ih fun d hd => hds d (.tail _ hd)]
    cases squeeze ds with
    | nil => exact if_neg (hds d (.head _))
    | cons e es =>
      dsimp only [List.cons_append]
      split <;> rfl

/-- The verdict on a text that is closed by the lexical error `l`. -/
theorem judge_lexical (items : List Item) {l : Diagnostic} {stuck earlier : List Diagnostic}
    (hstuck : ∀ d ∈ stuck, d = l) (hearlier : ∀ d ∈ earlier, d ≠ l) :
    judge items (l :: (stuck ++ earlier)) = .error (squeeze earlier.reverse ++ [l]) := by
  have hsqueeze : squeeze (l :: (stuck ++ earlier)).reverse = squeeze earlier.reverse ++ [l] := by
    rw [List.reverse_cons, List.reverse_append, List.append_assoc]
    exact squeeze_append_run (fun d hd => hearlier d (List.mem_reverse.1 hd))
      fun d hd => hstuck d (List.mem_reverse.1 hd)
  unfold judge
  rw [hsqueeze]
  cases squeeze earlier.reverse <;> rfl

/-! ## Whole texts -/

/-- The lexeme of a lexical error is its wording. -/
theorem scan_lexeme {file source : String} {t : Token} {e : LexicalError} (ht : t ∈ scan file source)
    (hk : t.kind = .invalid e) : t.lexeme = e.message := by
  refine scanFrom_forall (P := fun kind lexeme => kind = .invalid e → lexeme = e.message) ?_ ?_ file _ _ _
    t ht hk
  · intro h
    cases h
  · intro c cs h
    rw [Piece.lexeme, h]

section Texts

variable {r : Recovery} {unit : Nat} {first t : Token} {rest : List Token} {items : List Item}

/-- A parser that resumes after errors comes to the closing token, with the errors in order. -/
theorem program_closing (unit : Nat) (hterminated : Terminated (first :: rest)) :
    ∃ items c, Parser.program .resume unit (roundsFor (first :: rest)) (.start first rest) = .ok items c
      ∧ (first :: rest).getLast? = some c.current ∧ c.InOrder := by
  have hends := Parser.program_ends .resume unit (.start hterminated) (Nat.le_refl _)
  have horder := Parser.program_orderly .resume unit (roundsFor (first :: rest)) (.start first rest)
    ⟨[], [], rfl, nofun, nofun⟩
  cases hx : Parser.program .resume unit (roundsFor (first :: rest)) (.start first rest) with
  | error i c =>
    rw [hx] at hends
    obtain ⟨d, j, -, hstop, -⟩ := hends
    exact nomatch hstop
  | ok items c =>
    rw [hx] at hends horder
    obtain ⟨j, hcourse, hj⟩ := hends
    refine ⟨items, c, rfl, ?_, horder⟩
    rw [List.getLast?_eq_getElem?, ← hj]
    exact hcourse.stands.current

/-- The errors of a token list that is closed by a lexical error. -/
theorem parse_lexical {e : LexicalError} (unit : Nat) (hterminated : Terminated (first :: rest))
    (hlast : (first :: rest).getLast? = some t) (hk : t.kind = .invalid e) :
    ∃ earlier, parse .resume unit (first :: rest) = .error (earlier ++ [⟨t.span, .lexical e⟩])
      ∧ ∀ d ∈ earlier, d.Grammatical := by
  obtain ⟨items, c, hprogram, hcurrent, stuck, earlier, hreported, hstuck, hearlier⟩ :=
    program_closing unit hterminated
  obtain rfl : c.current = t := Option.some.inj (hcurrent.symm.trans hlast)
  have hobstacle : c.obstacle? = some ⟨c.current.span, .lexical e⟩ := by
    rw [Cursor.obstacle?, hk]
  have hclosing : withLexicalError .resume c.current c.reported
      = ⟨c.current.span, .lexical e⟩ :: (stuck ++ earlier) := by
    rw [withLexicalError, hk, ← hreported]
    exact if_pos (Bool.or_true _)
  refine ⟨squeeze earlier.reverse, ?_, fun d hd => hearlier d (List.mem_reverse.1 (mem_of_mem_squeeze hd))⟩
  rw [parse_cons]
  show conclude .resume (Parser.program .resume unit _ (.start first rest)) = _
  rw [hprogram]
  show judge items (withLexicalError .resume c.current c.reported) = _
  rw [hclosing]
  refine judge_lexical items (fun d hd => ?_) fun d hd hl => ?_
  · exact Option.some.inj ((hstuck d hd).symm.trans hobstacle)
  · exact hearlier d hd e (congrArg Diagnostic.cause hl)

/-- Nothing was noted down of a token list that is accepted, and no lexical error closes it. -/
theorem conclude_eq_ok {c : Cursor} (h : conclude r (.ok items c) = .ok items) :
    c.reported = [] ∧ ∀ e, c.current.kind ≠ .invalid e := by
  have herrors : withLexicalError r c.current c.reported = [] := (judge_eq_ok h).1
  have hreported := withLexicalError_eq_nil herrors
  refine ⟨hreported, fun e he => ?_⟩
  rw [hreported, withLexicalError, he] at herrors
  exact nomatch herrors

/-- A parser whose items are accepted has come to the token that closes the list, which is the end of
    the text. -/
theorem accepted_closing {c : Cursor} (hterminated : Terminated (first :: rest))
    (hprogram : Parser.program r unit (roundsFor (first :: rest)) (.start first rest) = .ok items c)
    (h : conclude r (.ok items c) = .ok items) :
    ∃ body closing, first :: rest = body ++ [closing] ∧ closing.kind = .endOfFile
      ∧ Course (first :: rest) 0 (.start first rest) body.length c ∧ c.rest = [closing]
      ∧ c.reported = [] := by
  have hends := Parser.program_ends r unit (.start hterminated) (Nat.le_refl _)
  rw [hprogram] at hends
  obtain ⟨j, hcourse, hj⟩ := hends
  obtain ⟨hreported, hvalid⟩ := conclude_eq_ok h
  have hat := hcourse.stands
  have hrest : c.rest = [c.current] := by
    rw [hat.rest, List.drop_eq_getElem_cons hat.inside, hj, List.drop_length]
    have hcurrent := hat.current
    rw [List.getElem?_eq_getElem hat.inside] at hcurrent
    rw [Option.some.inj hcurrent]
  have hclosing : c.current.kind = .endOfFile := by
    have hcloses := (hat.terminated.closes hat.current).2 hj
    cases hk : c.current.kind with
    | endOfFile => rfl
    | invalid e => exact absurd hk (hvalid e)
    | symbol | keyword | name | string | number =>
      rw [hk] at hcloses
      cases hcloses
  refine ⟨(first :: rest).take j, c.current, ?_, hclosing, ?_, hrest, hreported⟩
  · rw [← hrest, hat.rest, List.take_append_drop]
  · rw [List.length_take_of_le (by omega)]
    exact hcourse

end Texts

/-- Where parsing resumes after errors, a lexical error is reported exactly once, in the last place. And
    in either mode a text is accepted only if it is scanned to its end and the parser has come there,
    with all tokens before that having been read as the items. -/
theorem lexical_error_last (unit : Nat) (file source : String) :
    (∀ t e, (scan file source).getLast? = some t → t.kind = .invalid e →
      ∃ earlier, parseText .resume unit file source = .error (earlier ++ [⟨t.span, .lexical e⟩])
        ∧ (SyntaxError.lexical e).message = t.lexeme
        ∧ ∀ d ∈ earlier, ¬ (d.span = t.span ∧ d.cause.message = t.lexeme))
      ∧ ∀ r items, parseText r unit file source = .ok items →
        ∃ first rest body closing c, scan file source = first :: rest ∧ first :: rest = body ++ [closing]
          ∧ closing.kind = .endOfFile
          ∧ Parser.program r unit (roundsFor (first :: rest)) (.start first rest) = .ok items c
          ∧ Course (first :: rest) 0 (.start first rest) body.length c ∧ c.rest = [closing]
          ∧ c.reported = []
          ∧ ∀ G : Gauge (scan file source), itemsReadFrom G items 0 body.length := by
  have hterminated := scan_terminated file source
  constructor
  · intro t e hlast hk
    have hlexeme := scan_lexeme (List.mem_of_getLast? hlast) hk
    obtain ⟨first, rest, hscan⟩ := List.exists_cons_of_ne_nil hterminated.nonempty
    rw [hscan] at hlast hterminated
    obtain ⟨earlier, hparse, hearlier⟩ := parse_lexical unit hterminated hlast hk
    refine ⟨earlier, ?_, hlexeme.symm, ?_⟩
    · rw [parseText, hscan]
      exact hparse
    · rintro d hd ⟨-, hmessage⟩
      exact (hearlier d hd).message_ne e (hmessage.trans hlexeme)
  · intro r items hok
    obtain ⟨first, rest, c, hscan, hprogram⟩ := parseText_accepts hok
    have hread := fun G : Gauge (scan file source) => parseText_readFrom G hok
    rw [parseText, hscan, parse_cons] at hok
    have hconclude : conclude r (.ok items c) = .ok items := by
      rw [← hprogram r]
      exact hok
    obtain ⟨body, closing, htokens, hclosing, hcourse, hrest, hreported⟩ :=
      accepted_closing (hscan ▸ hterminated) (hprogram r) hconclude
    refine ⟨first, rest, body, closing, c, hscan, htokens, hclosing, hprogram r, hcourse, hrest, hreported,
      fun G => ?_⟩
    have hlength : body.length = (scan file source).length - 1 := by
      rw [hscan, htokens, List.length_append]
      rfl
    rw [hlength]
    exact hread G

/-- A stray parenthesis, and then an expression that is broken off by a character that starts no token. -/
theorem lexical_error_last_stray : ∃ (t : Token) (d : Diagnostic),
    (scan "" "); ( #").getLast? = some t ∧ t.kind = .invalid .unexpectedCharacter
      ∧ parseText .resume 0 "" "); ( #" = .error [d, ⟨t.span, .lexical .unexpectedCharacter⟩]
      ∧ ¬ (d.span = t.span ∧ d.cause.message = t.lexeme) := by
  have hlast : (scan "" "); ( #").getLast?.map Token.kind = some (.invalid .unexpectedCharacter) := by
    decide +kernel
  have hcount : ((parseText .resume 0 "" "); ( #").map fun _ => ()).mapError List.length = .error 2 := by
    decide +kernel
  obtain ⟨t, ht, hk⟩ := Option.map_eq_some_iff.1 hlast
  obtain ⟨earlier, hparse, -, hearlier⟩ := (lexical_error_last 0 "" "); ( #").1 t _ ht hk
  rw [hparse] at hcount
  have hlength : earlier.length + 1 = 2 := List.length_append.symm.trans (Except.error.inj hcount)
  obtain ⟨d, rfl⟩ := List.length_eq_one_iff.1 (Nat.succ.inj hlength)
  exact ⟨t, d, ht, hk, hparse, hearlier d (.head _)⟩

end Eleu
