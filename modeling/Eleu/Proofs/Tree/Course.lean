import Eleu.Proofs.Tree.Parsed
import Eleu.Proofs.Tree.ReadFrom

/-! # The course of the parser

    All that a parser does to its cursor is done in steps: it takes a token, it hands out an id, or it
    notes an error down (`Cursor.Step`). Steps that follow each other without leading back, and with
    a token of the list before the cursor each time, are a `Course`; a `Trail` is the same for any way
    of standing before the tokens.

    `Parser.Goes` describes a parser by where it may be started and where it then ends: on a trail from
    there, with a result that has been read from the tokens on the way and has the ids that were handed
    out on it. A parser runs out of rounds only if it was given too few. As there are fewer than sixteen
    rules of the grammar between two tokens, sixteen rounds a token are enough, and `goExprs` counts
    how many more a rule needs at the token that it starts with. -/

namespace Eleu

/-! ## Cursors on a token list -/

/-- The last token closes the list, and no other token does. -/
structure Terminated (tokens : List Token) : Prop where
  nonempty : tokens ≠ []
  closes : ∀ {i : Nat} {t : Token}, tokens[i]? = some t →
    (t.kind.closes = true ↔ i + 1 = tokens.length)

theorem Terminated.last {t : Token} (ht : t.kind.closes = true) : Terminated [t] := by
  refine ⟨List.cons_ne_nil _ _, fun {i u} hu => ?_⟩
  cases i with
  | zero =>
    obtain rfl : t = u := Option.some.inj hu
    exact ⟨fun _ => rfl, fun _ => ht⟩
  | succ i => exact nomatch hu

theorem Terminated.cons {t : Token} {ts : List Token} (ht : t.kind.closes = false) (h : Terminated ts) :
    Terminated (t :: ts) := by
  refine ⟨List.cons_ne_nil _ _, fun {i u} hu => ?_⟩
  rw [List.length_cons]
  cases i with
  | zero =>
    obtain rfl : t = u := Option.some.inj hu
    have := List.length_pos_iff.2 h.nonempty
    exact ⟨fun hclose => (nomatch ht.symm.trans hclose), fun hlast => by omega⟩
  | succ i => exact (h.closes hu).trans Nat.succ_inj.symm

/-- The cursor stands before the token `i`, which is one of the list. -/
structure Cursor.At (tokens : List Token) (i : Nat) (c : Cursor) : Prop where
  terminated : Terminated tokens
  inside : i < tokens.length
  rest : c.rest = tokens.drop i
  previous : tokens[i - 1]? = some c.previous

/-- The cursor with which the parser of a token list begins. -/
def Cursor.start (first : Token) (rest : List Token) : Cursor :=
  { previous := first, rest := first :: rest, lastId := 0, reported := [] }

/-- What a parser does to its cursor at a time. -/
inductive Cursor.Step : Cursor → Cursor → Prop where
  | next (c : Cursor) : Step c c.next
  | number (c : Cursor) : Step c { c with lastId := c.lastId + 1 }
  | report (c : Cursor) (d : Diagnostic) : Step c { c with reported := d :: c.reported }

/-- The keywords of statements with which parsing can go on after an error. -/
def statementKeywords : List Keyword := [.class, .fun, .var, .for, .if, .while, .return]

/-- Where parsing may go on after an error: at the end, just after a semicolon, or just before one of
    the keywords of statements. -/
def ResumesAt (tokens : List Token) (i : Nat) : Prop :=
  i + 1 = tokens.length ∨ ShownAt tokens (i - 1) (.fixed (.symbol .semicolon))
    ∨ ∃ w ∈ statementKeywords, ShownAt tokens i (.fixed (.keyword w))

namespace Cursor

variable {tokens : List Token} {i j : Nat} {c c' : Cursor}

theorem At.current (h : c.At tokens i) : tokens[i]? = some c.current := by
  have hi := h.inside
  have hrest : c.rest = tokens[i] :: tokens.drop (i + 1) := by
    rw [h.rest, List.drop_eq_getElem_cons hi]
  rw [Cursor.current, hrest, List.getElem?_eq_getElem hi]
  rfl

theorem At.start {first : Token} {rest : List Token} (h : Terminated (first :: rest)) :
    (Cursor.start first rest).At (first :: rest) 0 :=
  ⟨h, Nat.succ_pos _, rfl, rfl⟩

theorem At.atEnd_iff (h : c.At tokens i) : c.atEnd = true ↔ i + 1 = tokens.length :=
  h.terminated.closes h.current

theorem At.next (h : c.At tokens i) (hend : c.atEnd = false) : c.next.At tokens (i + 1) := by
  have hnext : c.next = { c with previous := c.current, rest := c.rest.tail } := by
    rw [Cursor.next, hend]
    rfl
  have hlast : i + 1 ≠ tokens.length := fun hlast => by
    rw [h.atEnd_iff.2 hlast] at hend
    cases hend
  have := h.inside
  rw [hnext]
  exact ⟨h.terminated, by omega, by rw [h.rest, List.tail_drop], h.current⟩

theorem startsStatement_iff {k : TokenKind} :
    startsStatement k = true ↔ ∃ w ∈ statementKeywords, k = .keyword w := by
  constructor
  · intro h
    cases k with
    | keyword w => cases w <;> first | exact ⟨_, by decide, rfl⟩ | exact nomatch h
    | symbol | name | string | number | endOfFile | invalid => exact nomatch h
  · rintro ⟨w, hw, rfl⟩
    cases w <;> first | rfl | exact absurd hw (by decide)

theorem At.resumesAt_iff (h : c.At tokens i) :
    ResumesAt tokens i ↔ (c.current.kind.closes || c.previous.kind == .symbol .semicolon
      || startsStatement c.current.kind) = true := by
  have hshown : ∀ {k : TokenKind}, ShownAt tokens i (.fixed k) ↔ c.current.kind = k := by
    intro k
    constructor
    · rintro ⟨t, ht, hk⟩
      obtain rfl : c.current = t := Option.some.inj (h.current.symm.trans ht)
      exact hk
    · exact fun hk => ⟨c.current, h.current, hk⟩
  have hprevious : ShownAt tokens (i - 1) (.fixed (.symbol .semicolon))
      ↔ c.previous.kind = .symbol .semicolon := by
    constructor
    · rintro ⟨t, ht, hk⟩
      obtain rfl : c.previous = t := Option.some.inj (h.previous.symm.trans ht)
      exact hk
    · exact fun hk => ⟨c.previous, h.previous, hk⟩
  rw [Bool.or_eq_true, Bool.or_eq_true, beq_iff_eq, startsStatement_iff, or_assoc]
  simp only [ResumesAt, hshown, hprevious]
  exact or_congr_left h.atEnd_iff.symm

end Cursor

/-- A way of standing before the tokens of a list that lasts when a token is taken or an id is handed
    out. -/
class Track (tokens : outParam (List Token)) (S : (i : Nat) → Cursor → Prop) : Prop where
  current {i : Nat} {c : Cursor} : S i c → tokens[i]? = some c.current
  previous {i : Nat} {c : Cursor} : S i c → 0 < i → tokens[i - 1]? = some c.previous
  next {i : Nat} {c : Cursor} : S i c → c.atEnd = false → S (i + 1) c.next
  number {i : Nat} {c : Cursor} : S i c → S i { c with lastId := c.lastId + 1 }

instance {tokens : List Token} : Track tokens (Cursor.At tokens) where
  current h := h.current
  previous h _ := h.previous
  next h := h.next
  number h := ⟨h.terminated, h.inside, h.rest, h.previous⟩

/-- The cursor `c`, which stands before the token `i`, comes to `c'`, before the token `j`. On the way
    each step ends before a token that is no earlier than the one it started at. -/
inductive Trail (S : (i : Nat) → Cursor → Prop) :
    (i : Nat) → (c : Cursor) → (j : Nat) → (c' : Cursor) → Prop where
  | stay {i : Nat} {c : Cursor} (h : S i c) : Trail S i c i c
  | step {i j k : Nat} {c c' c'' : Cursor} (h : Trail S i c j c') (hs : c'.Step c'') (hle : j ≤ k)
      (hk : S k c'') : Trail S i c k c''

/-- A trail on which each step ends before a token of the list. -/
abbrev Course (tokens : List Token) : (i : Nat) → (c : Cursor) → (j : Nat) → (c' : Cursor) → Prop :=
  Trail (Cursor.At tokens)

namespace Trail

variable {tokens : List Token} {S : Nat → Cursor → Prop} {i j k : Nat} {c c' c'' : Cursor}

theorem stands (h : Trail S i c j c') : S j c' := by
  cases h with
  | stay h => exact h
  | step _ _ _ hk => exact hk

theorem le (h : Trail S i c j c') : i ≤ j := by
  induction h with
  | stay => exact Nat.le_refl _
  | step _ _ hle _ ih => exact Nat.le_trans ih hle

theorem trans (h : Trail S i c j c') (h' : Trail S j c' k c'') : Trail S i c k c'' := by
  induction h' with
  | stay => exact h
  | step _ hs hle hk ih => exact .step (ih h) hs hle hk

theorem next [Track tokens S] (h : S i c) (hend : c.atEnd = false) : Trail S i c (i + 1) c.next :=
  .step (.stay h) (.next c) (Nat.le_succ _) (Track.next h hend)

theorem number [Track tokens S] (h : S i c) : Trail S i c i { c with lastId := c.lastId + 1 } :=
  .step (.stay h) (.number c) (Nat.le_refl _) (Track.number h)

/-- After an error the cursor goes on step by step, too, up to the first place where parsing resumes. -/
theorem skip (c : Cursor) {previous : Token} {rest : List Token}
    (h : Cursor.At tokens j { c with previous := previous, rest := rest }) :
    ∃ k, Course tokens j { c with previous := previous, rest := rest } k
        { c with previous := (Cursor.skipStatement previous rest).1,
                 rest := (Cursor.skipStatement previous rest).2 }
      ∧ ResumesAt tokens k ∧ ∀ l, j ≤ l → l < k → ¬ ResumesAt tokens l := by
  induction rest generalizing previous j with
  | nil =>
    have hlength := congrArg List.length h.rest
    have := h.inside
    rw [List.length_drop, List.length_nil] at hlength
    omega
  | cons t ts ih =>
    have hresumes : ResumesAt tokens j ↔ (t.kind.closes || previous.kind == .symbol .semicolon
        || Cursor.startsStatement t.kind) = true := h.resumesAt_iff
    rw [Cursor.skipStatement]
    split
    · next hstop => exact ⟨j, .stay h, hresumes.2 hstop, fun l hle hlt => by omega⟩
    · next hgo =>
        have hend : Cursor.atEnd { c with previous := previous, rest := t :: ts } = false := by
          rw [Bool.or_eq_true, Bool.or_eq_true] at hgo
          exact Bool.eq_false_iff.2 fun hclose => hgo (.inl (.inl hclose))
        have hstep := Trail.next h hend
        rw [show Cursor.next { c with previous := previous, rest := t :: ts }
          = { c with previous := t, rest := ts } by rw [Cursor.next, hend]; rfl] at hstep
        obtain ⟨k, hk, hplace, hfirst⟩ := ih hstep.stands
        refine ⟨k, hstep.trans hk, hplace, fun l hle hlt => ?_⟩
        by_cases hl : l = j
        · rw [hl]
          exact fun h => hgo (hresumes.1 h)
        · exact hfirst l (by omega) hlt

/-- Recovering from an error passes at least the token at which it came up, and then no place where
    parsing resumes. -/
theorem recover (h : c.At tokens i) :
    ∃ j, Course tokens i c j c.recover ∧ (c.atEnd = false → i < j) ∧ ResumesAt tokens j
      ∧ ∀ l, i < l → l < j → ¬ ResumesAt tokens l := by
  cases hend : c.atEnd with
  | true =>
    have hnext : c.next = c := by
      rw [Cursor.next, hend]
      rfl
    obtain ⟨j, hj, hplace, hfirst⟩ := skip c h
    refine ⟨j, ?_, Bool.noConfusion, hplace, fun l hle hlt => hfirst l (by omega) hlt⟩
    rw [Cursor.recover, hnext]
    exact hj
  | false =>
    have hnext := Trail.next h hend
    obtain ⟨j, hj, hplace, hfirst⟩ := skip c.next hnext.stands
    exact ⟨j, hnext.trans hj, fun _ => hj.le, hplace, hfirst⟩

/-- An error that came up after the token `i`, or at it, is recovered from further on. -/
theorem recover_report (h : Course tokens i c j c') (d : Diagnostic) (hi : i + 1 < tokens.length) :
    ∃ k, Course tokens i c k { c' with reported := d :: c'.reported }.recover ∧ i < k
      ∧ ResumesAt tokens k := by
  have hj := h.stands
  have hreport : Course tokens i c j { c' with reported := d :: c'.reported } :=
    h.step (.report c' d) (Nat.le_refl _) ⟨hj.terminated, hj.inside, hj.rest, hj.previous⟩
  obtain ⟨k, hrecover, hpass, hplace, -⟩ := recover hreport.stands
  refine ⟨k, hreport.trans hrecover, ?_, hplace⟩
  have hle := h.le
  have hle' := hrecover.le
  -- At the end the cursor stays where it is, but the end is not where the item began.
  by_cases hend : j + 1 = tokens.length
  · omega
  · have := hpass (Bool.eq_false_iff.2 fun h => hend (hreport.stands.atEnd_iff.1 h))
    omega

end Trail

/-! ## Parsers on their way -/

/-- With `n` rounds before the token `i`, a rule that needs `k` more than sixteen for each of the tokens
    that follow may run out of them. -/
abbrev Short (tokens : List Token) (n i k : Nat) : Prop := n + 16 * (i + 1) < 16 * tokens.length + k

theorem Level.tightness_bounds (l : Level) : 1 ≤ l.tightness ∧ l.tightness ≤ 6 := by
  cases l <;> decide

namespace Parser

variable {α β : Type} {tokens : List Token} {S : Nat → Cursor → Prop} {few few' : Prop} {i j k l : Nat}

/-- The outcome of a parser that was started with the cursor `c` before the token `i`. It has led at
    least `k` tokens on, to a token `j` and a last id for which `Q` holds together with the result, or to
    an error. If a token had to be taken but none was, the error is placed at the first one. The rounds
    have not run out unless there were `few`. -/
def Arrives (S : Nat → Cursor → Prop) (k : Nat) (few : Prop) (i : Nat) (c : Cursor)
    (Q : (j last : Nat) → α → Prop) (x : EStateM.Result Rejection Cursor α) : Prop :=
  Ends x (fun a c' => ∃ j, Trail S i c j c' ∧ i + k ≤ j ∧ Q j c'.lastId a)
    (fun e c' => ∃ j, Trail S i c j c' ∧ (e = .outOfRounds → few)
      ∧ (0 < k → ∀ d, e = .error d → i < j ∨ d.span = c.current.span))

/-- What comes of the parser wherever it is started before the token `i` with `l` as the last id. -/
def Goes (S : Nat → Cursor → Prop) (k : Nat) (few : Prop) (i l : Nat) (p : Parser α)
    (Q : (j last : Nat) → α → Prop) : Prop :=
  ∀ c : Cursor, S i c → c.lastId = l → Arrives S k few i c Q (p c)

theorem lastId_next (c : Cursor) : c.next.lastId = c.lastId := by
  unfold Cursor.next
  split <;> rfl

namespace Goes

variable {p : Parser α} {f : α → Parser β} {Q Q' : Nat → Nat → α → Prop} {R : Nat → Nat → β → Prop}
  {c c' : Cursor}

/-- What is known of a parser is known of it at the end of a trail, too. Once a token has been taken, an
    error may be placed anywhere. -/
theorem after (htrail : Trail S i c j c') (hk : i + k ≤ j) (hp : Goes S 0 few j c'.lastId p Q) :
    Arrives S k few i c Q (p c') := by
  refine (hp c' htrail.stands rfl).mono ?_ ?_
  · rintro a c'' ⟨m, htrail', hle, hQ⟩
    exact ⟨m, htrail.trans htrail', by omega, hQ⟩
  · rintro e c'' ⟨m, htrail', hfew, -⟩
    have := htrail'.le
    exact ⟨m, htrail.trans htrail', hfew, fun _ _ _ => .inl (by omega)⟩

theorem bind (hp : Goes S k few i l p Q)
    (hf : ∀ j l a, i + k ≤ j → Q j l a → Goes S 0 few j l (f a) R) : Goes S k few i l (p >>= f) R :=
  fun c hc hl => (hp c hc hl).bind fun a _ ⟨j, htrail, hk, hQ⟩ => after htrail hk (hf j _ a hk hQ)

theorem mono (hp : Goes S k few i l p Q) (hfew : few → few')
    (h : ∀ j l a, i + k ≤ j → Q j l a → Q' j l a) : Goes S k few' i l p Q' := by
  intro c hc hl
  refine (hp c hc hl).mono ?_ ?_
  · rintro a c' ⟨j, htrail, hk, hQ⟩
    exact ⟨j, htrail, hk, h j _ a hk hQ⟩
  · rintro e c' ⟨j, htrail, he, hplace⟩
    exact ⟨j, htrail, fun h => hfew (he h), hplace⟩

/-- The same parser where fewer rounds are few. -/
theorem within (hp : Goes S k few i l p Q) (hfew : few → few') : Goes S k few' i l p Q :=
  hp.mono hfew fun _ _ _ _ h => h

/-- That a token is taken is said of the result. -/
theorem moves (hp : Goes S 1 few i l p Q) : Goes S 0 few i l p fun j l a => i < j ∧ Q j l a := by
  intro c hc hl
  refine (hp c hc hl).mono ?_ ?_
  · rintro a c' ⟨j, htrail, hlt, hQ⟩
    exact ⟨j, htrail, htrail.le, hlt, hQ⟩
  · rintro e c' ⟨j, htrail, hfew, -⟩
    exact ⟨j, htrail, hfew, nofun⟩

theorem map {g : α → β} (hp : Goes S k few i l p fun j l a => R j l (g a)) :
    Goes S k few i l (g <$> p) R := fun c hc hl => Ends.map (hp c hc hl)

theorem pure {a : α} (h : Q i l a) : Goes S 0 few i l (pure a) Q :=
  fun _ hc hl => ⟨i, .stay hc, Nat.le_refl _, hl ▸ h⟩

theorem reject (span : Span) (cause : SyntaxError) : Goes S 0 few i l (reject span cause) Q := by
  intro c hc _
  rw [reject_apply]
  exact ⟨i, .stay hc, nofun, nofun⟩

theorem reject_bind (span : Span) (cause : SyntaxError) :
    Goes S 0 few i l (Parser.reject span cause >>= f) R :=
  (reject (Q := fun _ _ _ => False) span cause).bind fun _ _ _ _ h => h.elim

/-- Two ways to a value, and then on with it. -/
theorem choice {b : Bool} {q : Parser α} (hp : b = true → Goes S 0 few i l p Q)
    (hq : b = false → Goes S 0 few i l q Q)
    (hf : ∀ j l a, i ≤ j → Q j l a → Goes S 0 few j l (f a) R) :
    Goes S 0 few i l (if b = true then p >>= f else q >>= f) R := by
  cases b with
  | true => exact (hp rfl).bind hf
  | false => exact (hq rfl).bind hf

theorem atEnd {f : Bool → Parser β}
    (hf : ∀ b : Bool, (b = true ↔ i + 1 = tokens.length) → Goes (Cursor.At tokens) k few i l (f b) R) :
    Goes (Cursor.At tokens) k few i l (atEnd >>= f) R := fun c hc => hf c.atEnd hc.atEnd_iff c hc

theorem freshId [Track tokens S] {f : Nat → Parser β} (hf : Goes S k few i (l + 1) (f (l + 1)) R) :
    Goes S k few i l (freshId >>= f) R := by
  rintro c hc rfl
  have hnumber := Trail.number hc
  refine (hf { c with lastId := c.lastId + 1 } hnumber.stands rfl).mono ?_ ?_
  · rintro b c' ⟨j, htrail, hk, hR⟩
    exact ⟨j, hnumber.trans htrail, hk, hR⟩
  · rintro e c' ⟨j, htrail, hfew, hplace⟩
    exact ⟨j, hnumber.trans htrail, hfew, hplace⟩

theorem freshIdent [Track tokens S] {f : Ident → Parser β} {name : String}
    (hf : Goes S k few i (l + 1) (f ⟨name, l + 1⟩) R) : Goes S k few i l (freshIdent name >>= f) R :=
  freshId (f := fun id => f ⟨name, id⟩) hf

variable [Track tokens S]

theorem inside (hp : i < tokens.length → Goes S k few i l p Q) : Goes S k few i l p Q :=
  fun c hc => hp (List.getElem?_eq_some_iff.1 (Track.current hc)).1 c hc

/-- The only rule for running out of rounds. -/
theorem spent (h : i < tokens.length → few) : Goes S k few i l (throw .outOfRounds) Q :=
  inside fun hi _ hc _ => ⟨i, .stay hc, fun _ => h hi, fun _ _ => nofun⟩

/-! ### Looking at tokens -/

theorem peek {f : Token → Parser β} (hf : ∀ t, tokens[i]? = some t → Goes S k few i l (f t) R) :
    Goes S k few i l (peek >>= f) R := fun c hc => hf c.current (Track.current hc) c hc

theorem check {f : Bool → Parser β} {kind : TokenKind}
    (hf : ∀ b : Bool, (b = true ↔ ShownAt tokens i (.fixed kind)) → Goes S k few i l (f b) R) :
    Goes S k few i l (check kind >>= f) R := by
  intro c hc
  refine hf (c.current.kind == kind) ?_ c hc
  constructor
  · intro h
    exact ⟨c.current, Track.current hc, eq_of_beq h⟩
  · rintro ⟨t, ht, hkind⟩
    obtain rfl : c.current = t := Option.some.inj ((Track.current hc).symm.trans ht)
    exact beq_iff_eq.2 hkind

/-- Nothing was taken, and the error is placed here. -/
theorem reject_here {t : Token} (ht : tokens[i]? = some t) (cause : SyntaxError) :
    Goes S k few i l (Parser.reject t.span cause) Q := by
  intro c hc _
  obtain rfl : c.current = t := Option.some.inj ((Track.current hc).symm.trans ht)
  rw [reject_apply]
  refine ⟨i, .stay hc, nofun, ?_⟩
  rintro - _ ⟨⟩
  unfold Cursor.obstacle?
  split <;> exact .inr rfl

/-! ### Taking tokens -/

theorem advance {f : Token → Parser β} {t : Token} (ht : tokens[i]? = some t)
    (hclose : t.kind.closes = false) (hf : Goes S 0 few (i + 1) l (f t) R) (hk : k ≤ 1 := by omega) :
    Goes S k few i l (advance >>= f) R := by
  rintro c hc rfl
  obtain rfl : c.current = t := Option.some.inj ((Track.current hc).symm.trans ht)
  rw [← lastId_next c] at hf
  have hrest := after (k := k) (Trail.next hc hclose) (by omega) hf
  exact hrest

theorem accept {f : Bool → Parser β} {kind : TokenKind} (hclose : kind.closes = false)
    (hyes : ShownAt tokens i (.fixed kind) → Goes S 0 few (i + 1) l (f true) R)
    (hno : ¬ ShownAt tokens i (.fixed kind) → Goes S k few i l (f false) R) (hk : k ≤ 1 := by omega) :
    Goes S k few i l (accept kind >>= f) R := by
  intro c hc hl
  rw [Outcome.bind_apply, accept_apply]
  by_cases hkind : c.current.kind = kind
  · have hend : c.atEnd = false := by
      rw [Cursor.atEnd, hkind]
      exact hclose
    rw [beq_iff_eq.2 hkind, hend]
    exact advance (f := fun _ => f true) (Track.current hc) hend (hyes ⟨_, Track.current hc, hkind⟩) hk c hc hl
  · rw [beq_eq_false_iff_ne.2 hkind]
    refine hno ?_ c hc hl
    rintro ⟨t, ht, hshown⟩
    obtain rfl : c.current = t := Option.some.inj ((Track.current hc).symm.trans ht)
    exact hkind hshown

theorem expect {f : Token → Parser β} {kind : TokenKind} {cause : SyntaxError} (hclose : kind.closes = false)
    (hf : ∀ t, tokens[i]? = some t → t.kind = kind → Goes S 0 few (i + 1) l (f t) R) :
    Goes S 0 few i l (expect kind cause >>= f) R := by
  intro c hc hl
  have hreject : Goes S 0 few i l (Parser.reject c.previous.span cause >>= f) R := reject_bind _ _
  have hreject := hreject c hc hl
  rw [Outcome.bind_apply] at hreject ⊢
  rw [expect_apply]
  by_cases hkind : (c.current.kind == kind) = true
  · rw [if_pos hkind]
    have hkind := eq_of_beq hkind
    have hend : c.current.kind.closes = false := by
      rw [hkind]
      exact hclose
    exact advance (f := f) (Track.current hc) hend (hf c.current (Track.current hc) hkind) (by omega) c hc hl
  · rw [if_neg hkind]
    exact hreject

/-- A span that begins with a part of a node reaches up to the last token that was taken. -/
theorem spanFrom_any (G : Gauge tokens) {f : Span → Parser β} {start : Span}
    (hf : ∀ span, (∀ o m, G.fits o m start → m < i → G.fits o i span) → Goes S k few i l (f span) R) :
    Goes S k few i l (Parser.spanFrom start >>= f) R := by
  intro c hc
  refine hf (start.union c.previous.span) (fun o m hstart hlt => ?_) c hc
  have hlast := G.token (Track.previous hc (Nat.zero_lt_of_lt hlt))
  rw [Nat.sub_add_cancel (Nat.one_le_of_lt hlt)] at hlast
  exact G.union hstart (Nat.le_sub_one_of_lt hlt) hlast

theorem spanFrom {G : Gauge tokens} {f : Span → Parser β} {o m : Nat} {start : Span}
    (hstart : G.fits o m start) (hlt : m < i)
    (hf : ∀ span, G.fits o i span → Goes S k few i l (f span) R) :
    Goes S k few i l (spanFrom start >>= f) R :=
  spanFrom_any G fun span hspan => hf span (hspan o m hstart hlt)

end Goes

/-! ## Expressions -/

/-- The expression was read from the tokens from `i` up to `j`, its ids were handed out after `l` and up
    to `last`, it is canonical, and it binds at least by `least`. -/
structure Binds {tokens : List Token} (G : Gauge tokens) (least i l j last : Nat) (e : Expr) : Prop where
  read : e.ReadFrom G i j
  canonical : e.Canonical
  tight : least ≤ e.tightness
  ids : Issued l last e.ids

/-- The same of expressions that commas separate. -/
structure BindAll {tokens : List Token} (G : Gauge tokens) (i l j last : Nat) (es : List Expr) : Prop where
  read : exprsReadFrom G es i j
  canonical : Expr.AllCanonical es
  ids : Issued l last (exprsIds es)

variable {G : Gauge tokens} {n : Nat}

theorem Binds.of_le {least least' last : Nat} {e : Expr} (h : Binds G least i l j last e)
    (hle : least' ≤ least) : Binds G least' i l j last e :=
  ⟨h.read, h.canonical, Nat.le_trans hle h.tight, h.ids⟩

theorem assignTo_goes {target value : Expr} {o l₀ m l₁ : Nat} (htarget : Binds G 1 o l₀ m l₁ target)
    (heq : ShownAt tokens m (.fixed (.symbol .equal))) (hvalue : Binds G 0 (m + 1) l₁ i l value) :
    Goes S 0 few i l (assignTo target value) (Binds G 0 o l₀) := by
  have hspan := G.union htarget.read.fits (Nat.le_succ m) hvalue.read.fits
  have hids := htarget.ids.append hvalue.ids
  obtain ⟨hread, hcanonical, -, -⟩ := htarget
  cases target with
  | name ident span =>
    obtain ⟨-, rfl, hname⟩ := hread
    exact .pure ⟨⟨hspan, hname, heq, hvalue.read⟩, hvalue.canonical, Nat.zero_le _, hids⟩
  | getField object field span =>
    obtain ⟨-, k, rfl, hobject, hdot, hfield⟩ := hread
    exact .pure ⟨⟨hspan, k, hobject, hdot, hfield, heq, hvalue.read⟩, ⟨hcanonical, hvalue.canonical⟩,
      Nat.zero_le _, hids⟩
  | literal | list | assign | unary | binary | logical | group | call | setField | this | super =>
    exact .reject _ _

variable [Track tokens S]

theorem literalAt_goes {t : Token} {value : Literal} (ht : tokens[i]? = some t)
    (hclose : t.kind.closes = false) (hshows : t.Shows value.glyph) (hvalue : value.Representable) :
    Goes S 1 few i l (literalAt t value) (Binds G 9 i l) :=
  .advance ht hclose (.pure ⟨⟨G.token ht, rfl, ⟨t, ht, hshows⟩, hvalue⟩, hvalue, Nat.le_refl _, .nil⟩)

theorem numberLiteral_goes {f : Literal → Parser β} {R : Nat → Nat → β → Prop} {t : Token}
    (ht : tokens[i]? = some t)
    (hf : ∀ x, readFloat? t.lexeme.toList = some x → x.isFinite = true →
      Goes S 1 few i l (f (.number x)) R) : Goes S 1 few i l (numberLiteral t >>= f) R := by
  have hreject : Goes S 1 few i l (reject t.span .numberOutOfRange >>= f) R :=
    (Goes.reject_here (Q := fun _ _ _ => False) ht _).bind fun _ _ _ _ h => h.elim
  unfold numberLiteral
  split
  · next x hx =>
      split
      · next hfinite => exact hf x hx hfinite
      · exact hreject
  · exact hreject

theorem superRest_goes {t : Token} (ht : tokens[i]? = some t) (hkind : t.kind = .keyword .super) :
    Goes S 0 few (i + 1) l (superRest t.span) (Binds G 9 i l) := by
  refine .expect rfl fun dot hdot hdotKind => .expect rfl fun method hmethod hname => ?_
  refine .freshIdent (.spanFrom (G.token ht) (by omega) fun span hspan => .pure ?_)
  exact ⟨⟨hspan, rfl, ⟨t, ht, hkind⟩, ⟨dot, hdot, hdotKind⟩, ⟨method, hmethod, hname, rfl⟩, rfl⟩, rfl,
    Nat.le_refl _, .one⟩

/-- What all parsers of expressions do with `n` rounds. -/
structure GoExprs (S : Nat → Cursor → Prop) (G : Gauge tokens) (n : Nat) : Prop where
  expression : ∀ i l, Goes S 1 (Short tokens n i 15) i l (expression n) (Binds G 0 i l)
  operators : ∀ i l level, Goes S 1 (Short tokens n i (16 - 2 * level.tightness)) i l (operators n level)
    (Binds G level.tightness i l)
  moreOperands : ∀ i l level left, Goes S 0 (Short tokens n i 1) i l (moreOperands n level left)
    fun j last e => ∀ o l₀, Binds G level.tightness o l₀ i l left → Binds G level.tightness o l₀ j last e
  operand : ∀ i l level, Goes S 1 (Short tokens n i (15 - 2 * level.tightness)) i l (operand n level)
    (Binds G (level.tightness + 1) i l)
  unary : ∀ i l, Goes S 1 (Short tokens n i 2) i l (unary n) (Binds G 7 i l)
  chain : ∀ i l e, Goes S 0 (Short tokens n i 1) i l (chain n e) fun j last e' =>
    ∀ o l₀, Binds G 8 o l₀ i l e → Binds G 8 o l₀ j last e'
  arguments : ∀ i l count, Goes S 0 (Short tokens n i 16) i l (arguments n count) fun j last es =>
    BindAll G i l j last es ∧ es ≠ [] ∧ count + es.length ≤ maxArguments
  elements : ∀ i l, Goes S 0 (Short tokens n i 16) i l (elements n) fun j last es =>
    BindAll G i l j last es ∧ es ≠ []
  primary : ∀ i l, Goes S 1 (Short tokens n i 1) i l (primary n) (Binds G 9 i l)

/-- The first token tells what a primary expression is. -/
theorem primary_goes (ih : GoExprs S G n) (i l : Nat) :
    Goes S 1 (Short tokens (n + 1) i 1) i l (primary (n + 1)) (Binds G 9 i l) := by
  rw [primary]
  refine .peek fun t ht => ?_
  split
  · next hk => exact literalAt_goes ht (by rw [hk]; rfl) hk trivial
  · next hk => exact literalAt_goes ht (by rw [hk]; rfl) hk trivial
  · next hk => exact literalAt_goes ht (by rw [hk]; rfl) hk trivial
  · next hk => exact literalAt_goes ht (by rw [hk]; rfl) ⟨hk, rfl⟩ trivial
  · next hk =>
      exact numberLiteral_goes ht fun x hx hfinite =>
        literalAt_goes ht (by rw [hk]; rfl) ⟨hk, hx⟩ hfinite
  · next hk =>
      refine .freshIdent (.advance ht (by rw [hk]; rfl) (.pure ?_))
      exact ⟨⟨G.token ht, rfl, t, ht, hk, rfl⟩, trivial, Nat.le_refl _, .one⟩
  · next hk =>
      refine .freshIdent (.advance ht (by rw [hk]; rfl) (.pure ?_))
      exact ⟨⟨G.token ht, rfl, ⟨t, ht, hk⟩, rfl⟩, rfl, Nat.le_refl _, .one⟩
  · next hk => exact .advance ht (by rw [hk]; rfl) (superRest_goes ht hk)
  · next hk =>
      refine .advance ht (by rw [hk]; rfl) (((ih.expression (i + 1) l).moves.within (by omega)).bind ?_)
      rintro m last inner - ⟨hlt, hinner⟩
      refine .expect rfl fun close hclose hkind => ?_
      refine .spanFrom (G.token ht) (by omega) fun span hspan => .pure ?_
      exact ⟨⟨hspan, m, rfl, ⟨t, ht, hk⟩, hinner.read, close, hclose, hkind⟩, hinner.canonical,
        Nat.le_refl _, hinner.ids⟩
  · next hk =>
      refine .advance ht (by rw [hk]; rfl) (.check fun empty _ => ?_)
      refine .choice (Q := BindAll G (i + 1) l) (fun _ => .pure ⟨rfl, trivial, .nil⟩)
        (fun _ => (ih.elements (i + 1) l).mono (by omega) fun _ _ _ _ h => h.1)
        fun m last items hle hitems => ?_
      refine .expect rfl fun close hclose hkind => ?_
      refine .spanFrom (G.token ht) (by omega) fun span hspan => .pure ?_
      exact ⟨⟨hspan, m, rfl, ⟨t, ht, hk⟩, hitems.read, close, hclose, hkind⟩, hitems.canonical,
        Nat.le_refl _, hitems.ids⟩
  · exact .reject_here ht _
  · exact .reject_here ht _

/-- Calls and fields, as many as follow. -/
theorem chain_goes (ih : GoExprs S G n) (i l : Nat) (e : Expr) :
    Goes S 0 (Short tokens (n + 1) i 1) i l (chain (n + 1) e) fun j last e' =>
      ∀ o l₀, Binds G 8 o l₀ i l e → Binds G 8 o l₀ j last e' := by
  rw [chain]
  refine .peek fun t ht => ?_
  split
  · next hk =>
      refine .advance ht (by rw [hk]; rfl) (.check fun empty _ => ?_)
      refine .choice (Q := fun m last es => BindAll G (i + 1) l m last es ∧ es.length ≤ maxArguments)
        (fun _ => .pure ⟨⟨rfl, trivial, .nil⟩, Nat.zero_le _⟩)
        (fun _ => (ih.arguments (i + 1) l 0).mono (by omega) fun _ _ _ _ h => ⟨h.1, by simpa using h.2.2⟩)
        fun m last args hle hargs => ?_
      refine .expect rfl fun close hclose hkind => .spanFrom_any G fun span hspan => ?_
      refine (ih.chain (m + 1) last _).mono (by omega) fun j _ e' _ hchain o l₀ he => hchain o l₀ ?_
      exact ⟨⟨hspan o i he.read.fits (by omega), hargs.2, i, m, rfl, he.read, ⟨t, ht, hk⟩, hargs.1.read,
        close, hclose, hkind⟩, ⟨⟨he.canonical, he.tight⟩, hargs.1.canonical, hargs.2⟩, Nat.le_refl _,
        he.ids.append hargs.1.ids⟩
  · next hk =>
      refine .advance ht (by rw [hk]; rfl) (.expect rfl fun field hfield hname => ?_)
      refine .spanFrom_any G fun span hspan => ?_
      refine (ih.chain (i + 2) l _).mono (by omega) fun j _ e' _ hchain o l₀ he => hchain o l₀ ?_
      exact ⟨⟨hspan o i he.read.fits (by omega), i, rfl, he.read, ⟨t, ht, hk⟩, field, hfield, hname, rfl⟩,
        ⟨he.canonical, he.tight⟩, Nat.le_refl _, he.ids⟩
  · exact .pure fun _ _ he => he

/-- One expression of a list, and those that `more` reads after a comma. -/
theorem listed_goes {more : Parser (List Expr)} {P : List Expr → Prop}
    (he : Goes S 0 few i l (expression n) fun j last e => i < j ∧ Binds G 0 i l j last e)
    (hmore : ∀ m l, i < m → Goes S 0 few m l more fun j last es =>
      BindAll G m l j last es ∧ es ≠ [] ∧ P es) :
    Goes S 0 few i l (listed n more) fun j last es =>
      BindAll G i l j last es ∧ es ≠ [] ∧ (es.length = 1 ∨ ∃ e es', es = e :: es' ∧ P es') := by
  refine he.bind ?_
  rintro m l₁ e - ⟨hlt, he⟩
  refine .accept rfl (fun hcomma => ?_) fun _ => ?_
  · refine (hmore (m + 1) l₁ (by omega)).bind ?_
    rintro j last es - ⟨hes, hne, hP⟩
    exact .pure ⟨⟨⟨m, he.read, furtherReadFrom_of_comma hne hcomma hes.read⟩, ⟨he.canonical, hes.canonical⟩,
      he.ids.append hes.ids⟩, List.cons_ne_nil _ _, .inr ⟨e, es, rfl, hP⟩⟩
  · exact .pure ⟨⟨⟨m, he.read, rfl⟩, ⟨he.canonical, trivial⟩, he.ids.append .nil⟩, List.cons_ne_nil _ _,
      .inl rfl⟩

/-- Arguments up to the limit. -/
theorem arguments_goes (ih : GoExprs S G n) (i l count : Nat) :
    Goes S 0 (Short tokens (n + 1) i 16) i l (arguments (n + 1) count) fun j last es =>
      BindAll G i l j last es ∧ es ≠ [] ∧ count + es.length ≤ maxArguments := by
  by_cases hcount : count < maxArguments
  · rw [arguments_succ hcount]
    refine (listed_goes ((ih.expression i l).moves.within (by omega)) fun m l hm =>
      (ih.arguments m l (count + 1)).within (by omega)).mono id ?_
    rintro j last es - ⟨hes, hne, hlen | ⟨e, es, rfl, hlen⟩⟩
    · exact ⟨hes, hne, by omega⟩
    · exact ⟨hes, hne, by rw [List.length_cons]; omega⟩
  · rw [arguments, if_pos (Nat.le_of_not_lt hcount)]
    exact .peek fun _ _ => .reject_bind _ _

/-- Two operands that bind tightly enough can be joined. -/
theorem Binds.join {joiner : Joiner} {left right : Expr} {o l₀ j last : Nat} {t : Token}
    (hleft : Binds G joiner.level.tightness o l₀ i l left) (ht : tokens[i]? = some t)
    (hkind : t.kind = joiner.kind) (hright : Binds G (joiner.level.tightness + 1) (i + 1) l j last right) :
    Binds G joiner.level.tightness o l₀ j last (joiner.join left right) := by
  have hspan := G.union hleft.read.fits (Nat.le_succ i) hright.read.fits
  cases joiner with
  | binary op | logical op =>
    exact ⟨⟨hspan, i, hleft.read, ⟨t, ht, hkind⟩, hright.read⟩,
      ⟨⟨hleft.canonical, hleft.tight⟩, hright.canonical, hright.tight⟩, Nat.le_refl _,
      hleft.ids.append hright.ids⟩

/-- Whatever the rounds. -/
theorem goExprs (S : Nat → Cursor → Prop) [Track tokens S] (G : Gauge tokens) (n : Nat) : GoExprs S G n := by
  induction n with
  | zero =>
    -- Without a round left, there are too few: no rule does without one.
    constructor
    case operators =>
      intro i l level
      have := level.tightness_bounds
      exact .spent fun h => by omega
    case operand =>
      intro i l level
      have := level.tightness_bounds
      exact .spent fun h => by omega
    all_goals
      intros
      exact .spent fun h => by omega
  | succ n ih =>
    refine ⟨?_, ?_, ?_, ?_, ?_, chain_goes ih, arguments_goes ih, ?_, primary_goes ih⟩
    · intro i l
      rw [expression]
      have hor : Level.or.tightness = 1 := rfl
      refine ((ih.operators i l .or).within (by omega)).bind fun m l₁ target hlt htarget => ?_
      refine .accept rfl (fun hequal => ?_) fun _ => .pure (htarget.of_le (Nat.zero_le _))
      refine ((ih.expression (m + 1) l₁).moves.within (by omega)).bind ?_
      rintro j last value - ⟨hlt', hvalue⟩
      exact assignTo_goes htarget hequal hvalue
    · intro i l level
      have := level.tightness_bounds
      rw [operators]
      refine ((ih.operand i l level).within (by omega)).bind fun m l₁ left hlt hleft => ?_
      exact (ih.moreOperands m l₁ level left).mono (by omega) fun _ _ _ _ h =>
        h i l (hleft.of_le (Nat.le_succ _))
    · intro i l level left
      rw [moreOperands]
      refine .peek fun t ht => ?_
      split
      · exact .pure fun _ _ hleft => hleft
      · next joiner hjoiner =>
          -- The operand after the operator is a token further on, which pays for the next round.
          obtain ⟨hkind, rfl⟩ := Level.eq_of_joiner? hjoiner
          refine .advance ht (by rw [hkind]; exact joiner.closes_kind) ?_
          refine ((ih.operand (i + 1) l joiner.level).moves.within (by omega)).bind ?_
          rintro m l₁ right - ⟨hlt, hright⟩
          refine (ih.moreOperands m l₁ _ _).mono (by omega) fun j _ e _ hmore o l₀ hleft => ?_
          exact hmore o l₀ (hleft.join ht hkind hright)
    · intro i l level
      have := level.tightness_bounds
      rw [operand]
      split
      · next tighter htighter =>
          have htight := Level.tightness_tighter htighter
          rw [← htight]
          exact (ih.operators i l tighter).within (by omega)
      · next hnone =>
          have htight := Level.tightness_factor hnone
          rw [htight]
          exact (ih.unary i l).within (by omega)
    · intro i l
      rw [unary]
      refine .peek fun t ht => ?_
      split
      · next op hop =>
          have hkind := UnaryOp.eq_of_ofKind? hop
          refine .advance ht (by rw [hkind]; cases op <;> rfl) ?_
          refine ((ih.unary (i + 1) l).moves.within (by omega)).bind ?_
          rintro j last inner - ⟨hlt, hinner⟩
          exact .pure ⟨⟨G.union (G.token ht) (Nat.le_refl _) hinner.read.fits, ⟨t, ht, hkind⟩, hinner.read⟩,
            ⟨hinner.canonical, hinner.tight⟩, Nat.le_refl _, hinner.ids⟩
      · refine ((ih.primary i l).within (by omega)).bind fun m l₁ e hlt he => ?_
        exact (ih.chain m l₁ e).mono (by omega) fun _ _ _ _ h =>
          (h i l (he.of_le (by decide))).of_le (by decide)
    · intro i l
      rw [elements_succ]
      refine (listed_goes (P := fun _ => True) ((ih.expression i l).moves.within (by omega)) fun m l hm =>
        (ih.elements m l).mono (by omega) fun _ _ _ _ h => ⟨h.1, h.2, trivial⟩).mono id ?_
      exact fun _ _ _ _ h => ⟨h.1, h.2.1⟩

theorem expression_goes (G : Gauge tokens) (n i l : Nat) :
    Goes S 0 (Short tokens n i 15) i l (expression n) fun j last e => i < j ∧ Binds G 0 i l j last e :=
  ((goExprs S G n).expression i l).moves

end Parser

end Eleu
