import Eleu.Proofs.Token.Partition
import Eleu.Proofs.Tree.ItemCourse

/-! # The parser always moves on and comes to an end

    A list of tokens that is closed by its last token, and by no other, is parsed to the end whatever
    stands in it. No rule of the grammar leads the cursor back or past the closing token
    (`Parser.Rule.forward`), and each item before the end takes at least one token, also one that is
    skipped because of an error (`Parser.declaration_ends`). As each round of the recursion is paid for
    by a token, the rounds that the length of the list allows are enough (`Parser.program_ends`).

    One thing may happen without any token being taken: a parser that stops at the first error may find
    it at the first token of an item, and then the error is placed at that token. -/

namespace Eleu

namespace Parser

variable {α : Type} {tokens : List Token} {i n : Nat} {c : Cursor} {r : Recovery} {unit : Nat}

theorem lt_roundsFor_of_short {k : Nat} (h : Short tokens n i k) (hk : k ≤ 32) :
    n < roundsFor tokens := by
  rw [roundsFor]
  omega

/-- The rules of the grammar that may be entered at a cursor. Those for a statement that is known by its
    keyword take the first token without a look at it. -/
inductive Rule (r : Recovery) (unit n : Nat) (c : Cursor) : {α : Type} → Parser α → Prop where
  | expression : Rule r unit n c (expression n)
  | operators (l : Level) : Rule r unit n c (operators n l)
  | moreOperands (l : Level) (left : Expr) : Rule r unit n c (moreOperands n l left)
  | operand (l : Level) : Rule r unit n c (operand n l)
  | unary : Rule r unit n c (unary n)
  | chain (e : Expr) : Rule r unit n c (chain n e)
  | primary : Rule r unit n c (primary n)
  | arguments (count : Nat) : Rule r unit n c (arguments n count)
  | elements : Rule r unit n c (elements n)
  | parenthesised : Rule r unit n c (parenthesised n)
  | expressionStatement (restricted : Bool) : Rule r unit n c (expressionStatement n restricted)
  | assertion (h : c.current.kind = .keyword .assert) : Rule r unit n c (assertion n)
  | returnStatement (h : c.current.kind = .keyword .return) : Rule r unit n c (returnStatement n)
  | varDeclaration (h : c.current.kind = .keyword .var) : Rule r unit n c (varDeclaration n)
  | forInitialiser : Rule r unit n c (forInitialiser n)
  | forHead (start : Span) : Rule r unit n c (forHead n start)
  | parameters (count : Nat) : Rule r unit n c (parameters n count)
  | superclass : Rule r unit n c superclass
  | statement : Rule r unit n c (statement r unit n)
  | bodyStatement (afterParen : Bool) : Rule r unit n c (bodyStatement r unit n afterParen)
  | blockItems : Rule r unit n c (blockItems r unit n)
  | function (kind : FunctionKind) (start : Span) : Rule r unit n c (function r unit n kind start)
  | methods : Rule r unit n c (methods r unit n)
  | classDeclaration (h : c.current.kind = .keyword .class) : Rule r unit n c (classDeclaration r unit n)
  | item : Rule r unit n c (item r unit n)
  | program : Rule r unit n c (program r unit n)

/-- However a parser ends, its cursor is no further back than before and not past the closing token; and
    it runs out of rounds only if it had fewer than the list allows. -/
def Forward (tokens : List Token) (n i : Nat) (c : Cursor) (p : Parser α) : Prop :=
  Ends (p c) (fun _ c' => ∃ j, Course tokens i c j c')
    (fun e c' => (∃ j, Course tokens i c j c') ∧ (e = .outOfRounds → n < roundsFor tokens))

theorem Goes.forward {k least : Nat} {p : Parser α} {Q : Nat → Nat → α → Prop}
    (hp : Moves tokens least (Short tokens n i k) i c.lastId p Q) (hc : c.At tokens i) (hk : k ≤ 32) :
    Forward tokens n i c p := by
  refine (hp c hc rfl).mono ?_ ?_
  · rintro a c' ⟨j, htrail, -⟩
    exact ⟨j, htrail⟩
  · rintro e c' ⟨j, htrail, he, -⟩
    exact ⟨⟨j, htrail⟩, fun h => lt_roundsFor_of_short (he h) hk⟩

theorem Rule.forward {p : Parser α} (hc : c.At tokens i) (hp : Rule r unit n c p) :
    Forward tokens n i c p := by
  let G := Gauge.any tokens
  have hexprs := goExprs (Cursor.At tokens) G n
  have hitems := moveItems G r unit n
  cases hp with
  | expression => exact (hexprs.expression i _).forward hc (by omega)
  | operators l => exact (hexprs.operators i _ l).forward hc (by omega)
  | moreOperands l left => exact (hexprs.moreOperands i _ l left).forward hc (by omega)
  | operand l => exact (hexprs.operand i _ l).forward hc (by omega)
  | unary => exact (hexprs.unary i _).forward hc (by omega)
  | chain e => exact (hexprs.chain i _ e).forward hc (by omega)
  | primary => exact (hexprs.primary i _).forward hc (by omega)
  | arguments count => exact (hexprs.arguments i _ count).forward hc (by omega)
  | elements => exact (hexprs.elements i _).forward hc (by omega)
  | parenthesised => exact (parenthesised_moves G n i _).forward hc (by omega)
  | expressionStatement restricted =>
    exact (expressionStatement_moves G n i _ restricted).forward hc (by omega)
  | assertion hk => exact (assertion_moves G r unit n hc.current hk).forward hc (by omega)
  | returnStatement hk => exact (returnStatement_moves G r unit n hc.current hk).forward hc (by omega)
  | varDeclaration hk => exact (varDeclaration_moves G unit n hc.current hk).forward hc (by omega)
  | forInitialiser => exact (forInitialiser_moves G unit n i _).forward hc (by omega)
  | forHead start => exact (forHead_moves G unit n i _ start).forward hc (by omega)
  | parameters count => exact (parameters_moves n i _ count).forward hc (by omega)
  | superclass =>
    have hmoves : Moves tokens 0 (Short tokens n i 0) i c.lastId Parser.superclass _ := superclass_moves i _
    exact hmoves.forward hc (by omega)
  | statement => exact (hitems.statement i _).forward hc (by omega)
  | bodyStatement afterParen => exact (hitems.bodyStatement i _ afterParen).forward hc (by omega)
  | blockItems => exact (hitems.blockItems i _).forward hc (by omega)
  | function kind start =>
    exact (hitems.function i i _ kind start trivial (Nat.le_refl i)).forward hc (by omega)
  | methods => exact (hitems.methods i _).forward hc (by omega)
  | classDeclaration hk => exact (hitems.classDeclaration i _ _ hc.current hk).forward hc (by omega)
  | item => exact (hitems.item i _).forward hc (by omega)
  | program => exact (program_moves G r unit n i _).forward hc (by omega)

/-- An item before the end takes a token, whether it is read or skipped. A parser that stops at an error
    has taken one, too, unless the error is placed at the first token of the item. -/
theorem declaration_ends (hc : c.At tokens i) (hend : c.atEnd = false) :
    Ends (declaration r unit n c)
      (fun x c' => ∃ j, Course tokens i c j c' ∧ i < j
        ∧ (x = none → r = .resume ∧ ResumesAt tokens j))
      (fun e c' => ∃ j, Course tokens i c j c' ∧ (e = .outOfRounds → n < roundsFor tokens)
        ∧ ∀ d, e = .error d → r = .stop ∧ (i < j ∨ d.span = c.current.span)) := by
  cases n with
  | zero => exact ⟨i, .stay hc, fun _ => Nat.mul_pos (by decide) (Nat.succ_pos _), by rintro _ ⟨⟩⟩
  | succ n =>
    have hi : i + 1 < tokens.length := by
      have := hc.inside
      have : i + 1 ≠ tokens.length := fun h => by
        rw [hc.atEnd_iff.2 h] at hend
        cases hend
      omega
    have hitem := (moveItems (Gauge.any tokens) r unit n).item i _ c hc rfl
    rw [declaration, recovering]
    cases hx : item r unit n c with
    | ok a c' =>
      rw [hx] at hitem
      obtain ⟨j, htrail, hlt, -⟩ := hitem
      exact ⟨j, htrail, hlt, by rintro ⟨⟩⟩
    | error e c' =>
      rw [hx] at hitem
      obtain ⟨j, htrail, hfew, hplace⟩ := hitem
      cases e with
      | outOfRounds =>
        refine ⟨j, htrail, fun _ => ?_, by rintro _ ⟨⟩⟩
        have hshort : Short tokens (n + 1) i 18 := by
          have := hfew rfl
          omega
        exact lt_roundsFor_of_short hshort (by omega)
      | error d =>
        cases r with
        | stop =>
          refine ⟨j, htrail, by rintro ⟨⟩, ?_⟩
          rintro _ ⟨⟩
          exact ⟨rfl, hplace Nat.one_pos d rfl⟩
        | resume =>
          obtain ⟨k, hrecover, hlt, hresumes⟩ := htrail.recover_report d hi
          exact ⟨k, hrecover, hlt, fun _ => ⟨rfl, hresumes⟩⟩

/-- When resuming after errors, none is left over for the program as a whole. -/
theorem program_error (r : Recovery) (unit n : Nat) (c : Cursor) :
    Ends (program r unit n c) (fun _ _ => True) fun e _ => e = .outOfRounds ∨ r = .stop := by
  have hdeclaration : ∀ n c, Ends (declaration r unit n c) (fun _ _ => True)
      fun e _ => e = .outOfRounds ∨ r = .stop := by
    intro n c
    cases n with
    | zero => exact .inl rfl
    | succ n =>
      rw [declaration, recovering]
      cases item r unit n c with
      | ok a c' => exact trivial
      | error e c' =>
        cases e with
        | outOfRounds => exact .inl rfl
        | error d =>
          cases r with
          | stop => exact .inr rfl
          | resume => exact trivial
  induction n generalizing c with
  | zero => exact .inl rfl
  | succ n ih =>
    rw [program]
    refine Ends.bind (P := fun _ _ => True) (x := atEnd) trivial fun ended c' _ => ?_
    cases ended with
    | true => exact trivial
    | false =>
      refine Ends.bind (hdeclaration n c') fun first c'' _ => ?_
      exact Ends.bind (ih c'') fun items c''' _ => trivial

/-- A whole program is read to the closing token, unless it is to stop at an error. -/
theorem program_ends (r : Recovery) (unit : Nat) (hc : c.At tokens 0) (hn : roundsFor tokens ≤ n) :
    Ends (program r unit n c) (fun _ c' => ∃ j, Course tokens 0 c j c' ∧ j + 1 = tokens.length)
      (fun e c' => ∃ d j, e = .error d ∧ r = .stop ∧ Course tokens 0 c j c') := by
  have hmoves := program_moves (Gauge.any tokens) r unit n 0 _ c hc rfl
  have herror := program_error r unit n c
  cases hx : program r unit n c with
  | ok items c' =>
    rw [hx] at hmoves
    obtain ⟨j, htrail, -, hend, -⟩ := hmoves
    exact ⟨j, htrail, hend⟩
  | error e c' =>
    rw [hx] at hmoves herror
    obtain ⟨j, htrail, hfew, -⟩ := hmoves
    have henough : e ≠ .outOfRounds := fun h => by
      have := lt_roundsFor_of_short (hfew h) (by omega)
      omega
    cases e with
    | outOfRounds => exact absurd rfl henough
    | error d => exact ⟨d, j, rfl, herror.resolve_left nofun, htrail⟩

end Parser

/-- Every text is scanned to a list that its last token closes. -/
theorem Partition.terminated {file : String} {text : List Char} {prev : Nat} {tokens : List Token}
    (h : Partition file text prev tokens) : Terminated tokens := by
  induction h with
  | last _ closes _ => exact .last closes
  | next _ inner _ ih => exact .cons inner ih

/-- The parser never turns back and never passes the closing token, and it comes to an end. -/
theorem parse_advances (r : Recovery) (unit : Nat) {first : Token} {rest : List Token}
    (h : Terminated (first :: rest)) :
    -- The whole list is read, or up to the error at which parsing is to stop.
    (∀ n, roundsFor (first :: rest) ≤ n →
      Ends (Parser.program r unit n (.start first rest))
        (fun _ c' => ∃ j, Course (first :: rest) 0 (.start first rest) j c'
          ∧ j + 1 = (first :: rest).length)
        (fun e c' => ∃ d j, e = .error d ∧ r = .stop
          ∧ Course (first :: rest) 0 (.start first rest) j c'))
    ∧ ∀ (i : Nat) (c : Cursor), c.At (first :: rest) i →
      (∀ (n : Nat) (α : Type) (p : Parser α), Parser.Rule r unit n c p →
        Parser.Forward (first :: rest) n i c p)
      -- An item before the end takes a token. Only one that is given up may be left at its first one.
      ∧ (c.atEnd = false → ∀ n, Ends (Parser.declaration r unit n c)
        (fun x c' => ∃ j, Course (first :: rest) i c j c' ∧ i < j
          ∧ (x = none → r = .resume ∧ ResumesAt (first :: rest) j))
        (fun e c' => ∃ j, Course (first :: rest) i c j c'
          ∧ (e = .outOfRounds → n < roundsFor (first :: rest))
          ∧ ∀ d, e = .error d → r = .stop ∧ (i < j ∨ d.span = c.current.span)))
      -- Parsing is resumed at the first place after the error where it can be.
      ∧ ∃ j, Course (first :: rest) i c j c.recover ∧ (c.atEnd = false → i < j)
        ∧ ResumesAt (first :: rest) j ∧ ∀ l, i < l → l < j → ¬ ResumesAt (first :: rest) l := by
  refine ⟨fun n hn => Parser.program_ends r unit (.start h) hn, fun i c hc => ⟨?_, ?_, ?_⟩⟩
  · exact fun n α p hp => hp.forward hc
  · exact fun hend n => Parser.declaration_ends hc hend
  · exact Trail.recover hc

/-- The tokens of a stray parenthesis before a character that starts no token. -/
def strayTokens : List Token :=
  [⟨.symbol .rightParen, ")", ⟨"t", ⟨1, 1⟩, ⟨1, 2⟩⟩⟩,
    ⟨.invalid .unexpectedCharacter, "unexpected character", ⟨"t", ⟨1, 2⟩, ⟨1, 3⟩⟩⟩]

/-- When resuming, the stray parenthesis is passed. -/
theorem parse_advances_stray : ∃ (first : Token) (rest : List Token) (c' : Cursor),
    strayTokens = first :: rest ∧ Terminated (first :: rest)
    ∧ Parser.declaration .resume 0 48 (.start first rest) = .ok none c'
    ∧ ∃ j, Course (first :: rest) 0 (.start first rest) j c' ∧ 0 < j
      ∧ ResumesAt (first :: rest) j := by
  have hterminated : Terminated strayTokens := .cons rfl (.last rfl)
  refine ⟨_, _, _, rfl, hterminated, rfl, ?_⟩
  obtain ⟨-, hplaces⟩ := parse_advances .resume 0 hterminated
  obtain ⟨j, hcourse, hlt, hnone⟩ := (hplaces 0 _ (.start hterminated)).2.1 rfl 48
  exact ⟨j, hcourse, hlt, (hnone rfl).2⟩

/-- When stopping, the error at the stray parenthesis is given with the cursor still before it. -/
theorem declaration_not_advancing : ∃ (first : Token) (rest : List Token) (d : Diagnostic),
    strayTokens = first :: rest ∧ Terminated (first :: rest)
    ∧ (Cursor.start first rest).atEnd = false
    ∧ Parser.declaration .stop 0 (roundsFor strayTokens) (.start first rest)
      = .error (.error d) (.start first rest) :=
  ⟨_, _, _, rfl, .cons rfl (.last rfl), rfl, rfl⟩

end Eleu
