import Eleu.Proofs.Token.Rescan
import Eleu.Proofs.Tree.Modes

/-! # The layout of a text does not matter

    Like tokens and items, cursors can be freed of their places. No parser ever looks at a place. So
    each of them does the same on a cursor without places, up to the places of what it gives
    (`Parser.Unplaced`), and what a token list is parsed to is known, but for the places, as soon as
    the kinds and lexemes of the tokens are (`parse_alike`). Since the source texts of the tokens
    determine these (`scan_render`), blanks and comments have no say in it (`layout_immaterial`). -/

namespace Eleu

open Outcome

/-! ## Cursors -/

namespace Cursor

/-- A cursor over tokens without places. -/
def placeless (c : Cursor) : Cursor :=
  { previous := c.previous.placeless
    rest := c.rest.map Token.placeless
    lastId := c.lastId
    reported := c.reported.map Diagnostic.placeless }

theorem current_placeless (c : Cursor) : c.placeless.current = c.current.placeless := by
  obtain ⟨previous, rest, lastId, reported⟩ := c
  cases rest <;> rfl

theorem atEnd_placeless (c : Cursor) : c.placeless.atEnd = c.atEnd := by
  unfold atEnd
  rw [current_placeless, Token.kind_placeless]

theorem next_placeless (c : Cursor) : c.placeless.next = c.next.placeless := by
  unfold next
  rw [atEnd_placeless]
  cases c.atEnd with
  | true => rfl
  | false =>
    simp only [Bool.false_eq_true, if_false, current_placeless]
    simp only [placeless, List.map_tail]

theorem obstacle?_placeless (c : Cursor) :
    c.placeless.obstacle? = c.obstacle?.map Diagnostic.placeless := by
  unfold obstacle?
  rw [current_placeless, Token.kind_placeless]
  cases c.current.kind <;> rfl

theorem skipStatement_placeless (previous : Token) (ts : List Token) :
    skipStatement previous.placeless (ts.map Token.placeless)
      = ((skipStatement previous ts).1.placeless, (skipStatement previous ts).2.map Token.placeless) := by
  induction ts generalizing previous with
  | nil => rfl
  | cons t ts ih =>
    rw [List.map_cons, skipStatement, skipStatement, Token.kind_placeless, Token.kind_placeless]
    split
    · rfl
    · exact ih t

theorem recover_placeless (c : Cursor) : c.placeless.recover = c.recover.placeless := by
  unfold recover
  simp only [next_placeless]
  have hskip := skipStatement_placeless c.next.previous c.next.rest
  simp only [placeless] at hskip ⊢
  rw [hskip]

end Cursor

/-- The outcome of a parser without places; `e` forgets those of the result. -/
def Parser.placelessResult {α β : Type} (e : α → β) :
    EStateM.Result Rejection Cursor α → EStateM.Result Rejection Cursor β
  | .ok a c => .ok (e a) c.placeless
  | .error (.error d) c => .error (.error d.placeless) c.placeless
  | .error .outOfRounds c => .error .outOfRounds c.placeless

namespace Parser

variable {α β γ δ : Type}

/-- On a cursor without places, `q` does what `p` does on the cursor with them, and what it gives is
    what `e` makes of the result of `p`. -/
def Unplaced (e : α → β) (p : Parser α) (q : Parser β) : Prop :=
  ∀ c, q c.placeless = placelessResult e (p c)

namespace Unplaced

theorem bind {e : α → β} {e' : γ → δ} {p : Parser α} {q : Parser β} {f : α → Parser γ}
    {g : β → Parser δ} (hp : Unplaced e p q) (hf : ∀ a, Unplaced e' (f a) (g (e a))) :
    Unplaced e' (p >>= f) (q >>= g) := by
  intro c
  rw [bind_apply, bind_apply, hp c]
  cases p c with
  | ok a c' => exact hf a c'
  | error r c' => cases r <;> rfl

/-- Where parsing goes on after an error does not depend on places. -/
theorem recovering {e : α → β} (r : Recovery) {p : Parser α} {q : Parser β} (hp : Unplaced e p q) :
    Unplaced (Option.map e) (recovering r p) (recovering r q) := by
  intro c
  unfold Parser.recovering
  rw [hp c]
  cases p c with
  | ok a c' => rfl
  | error x c' =>
    cases x with
    | outOfRounds => rfl
    | error d =>
      cases r with
      | stop => rfl
      | resume =>
        exact congrArg (EStateM.Result.ok none)
          (Cursor.recover_placeless { c' with reported := d :: c'.reported })

/-- No rule looks at a place. -/
theorem law : Law false fun f p q => Unplaced f p q where
  pure h c := by
    rw [h]
    rfl
  bind hp hk := hp.bind hk
  spent _ := rfl
  peek c := by
    show EStateM.Result.ok c.placeless.current c.placeless = _
    rw [Cursor.current_placeless]
    rfl
  previous _ := rfl
  atEnd c := by
    show EStateM.Result.ok c.placeless.atEnd c.placeless = _
    rw [Cursor.atEnd_placeless]
    rfl
  advance c := by
    show EStateM.Result.ok c.placeless.current c.placeless.next = _
    rw [Cursor.current_placeless, Cursor.next_placeless]
    rfl
  freshId _ := rfl
  reject span cause _ c := by
    rw [reject_apply, reject_apply, Cursor.obstacle?_placeless]
    cases c.obstacle? <;> rfl

theorem program (r : Recovery) (unit n : Nat) :
    Unplaced itemsPlaceless (program r unit n) (program r unit n) :=
  law.program (recovering r) unit n

end Unplaced

end Parser

/-! ## Whole texts -/

/-- A text is accepted if no error was found. -/
theorem toOption_judge (items : List Item) (errors : List Diagnostic) :
    (judge items errors).toOption = if errors.isEmpty then some items else none := by
  unfold judge
  cases herrors : errors.reverse with
  | nil =>
    rw [List.reverse_eq_nil_iff.1 herrors]
    rfl
  | cons d ds =>
    obtain ⟨rest, hrest⟩ := squeeze_cons d ds
    have hne : errors.isEmpty = false := by
      rw [← List.isEmpty_reverse, herrors]
      rfl
    rw [hrest, hne]
    rfl

theorem withLexicalError_placeless (r : Recovery) (closing : Token) (errors : List Diagnostic) :
    withLexicalError r closing.placeless (errors.map Diagnostic.placeless)
      = (withLexicalError r closing errors).map Diagnostic.placeless := by
  unfold withLexicalError
  rw [Token.kind_placeless, List.isEmpty_map]
  split
  · split <;> rfl
  · rfl

theorem judge_placeless (r : Recovery) (items : List Item) (c : Cursor) (errors : List Diagnostic) :
    (judge (itemsPlaceless items)
        (withLexicalError r c.placeless.current (errors.map Diagnostic.placeless))).toOption
      = (judge items (withLexicalError r c.current errors)).toOption.map itemsPlaceless := by
  rw [Cursor.current_placeless, withLexicalError_placeless, toOption_judge, toOption_judge,
    List.isEmpty_map]
  split <;> rfl

theorem conclude_placeless (r : Recovery) (x : EStateM.Result Rejection Cursor (List Item)) :
    (conclude r (Parser.placelessResult itemsPlaceless x)).toOption
      = (conclude r x).toOption.map itemsPlaceless := by
  cases x with
  | ok items c => exact judge_placeless r items c c.reported
  | error e c =>
    cases e with
    | error d => exact judge_placeless r [] c (d :: c.reported)
    | outOfRounds => exact judge_placeless r [] c c.reported

/-- The items of tokens without places are the items without places. -/
theorem parse_placeless (r : Recovery) (unit : Nat) (ts : List Token) :
    (parse r unit (ts.map Token.placeless)).toOption = (parse r unit ts).toOption.map itemsPlaceless := by
  cases ts with
  | nil => rfl
  | cons t ts =>
    have hrounds : roundsFor ((t :: ts).map Token.placeless) = roundsFor (t :: ts) := by
      unfold roundsFor
      rw [List.length_map]
    rw [parse_cons, ← conclude_placeless, ← Parser.Unplaced.program, ← hrounds]
    exact congrArg Except.toOption (parse_cons r unit t.placeless (ts.map Token.placeless))

/-- Tokens of the same kinds and lexemes are parsed to the same items but for the places. -/
theorem parse_alike (r : Recovery) (unit : Nat) {ts us : List Token}
    (h : ts.map Token.face = us.map Token.face) :
    (parse r unit ts).toOption.map itemsPlaceless = (parse r unit us).toOption.map itemsPlaceless := by
  have hplaceless : ∀ ts : List Token, ts.map Token.placeless
      = (ts.map Token.face).map fun f => ⟨f.1, f.2, .empty⟩ := by
    intro ts
    rw [List.map_map]
    rfl
  rw [← parse_placeless, ← parse_placeless, hplaceless ts, hplaceless us, h]

/-- The tokens of a text that is scanned to its end can be written out with a blank between any two
    of them, and are scanned again as they were. So the places of the tokens do not matter: two texts
    whose tokens have the same source texts, and which are closed alike, differ in blanks and comments
    only, and they are parsed to the same items with the same ids, but for the places, or neither
    is accepted. -/
theorem layout_immaterial (file file' source : String) :
    (closingKind (scan file source) = some .endOfFile →
      (scan file' (renderTokens (scan file source))).map Token.face
        = (scan file source).map Token.face)
    ∧ ∀ r unit source', tokenTexts (scan file source) = tokenTexts (scan file' source') →
      closingKind (scan file source) = closingKind (scan file' source') →
      (parseText r unit file source).toOption.map itemsPlaceless
        = (parseText r unit file' source').toOption.map itemsPlaceless := by
  constructor
  · intro hclosing
    obtain ⟨k, hk, hfaces⟩ := scan_faces file source
    obtain rfl : k = .endOfFile := Option.some.inj (hk.symm.trans hclosing)
    rw [hfaces]
    exact scan_render file file' source
  · intro r unit source' htexts hclosing
    exact parse_alike r unit (scan_faces_eq htexts hclosing)

/-- A string with a comment mark, a slash between names and a number before a point. -/
theorem layout_immaterial_division :
    closingKind (scan "a" "p(\x22//\x22,x/2 .y);") = some .endOfFile
    ∧ (scan "b" (renderTokens (scan "a" "p(\x22//\x22,x/2 .y);"))).map Token.face
      = (scan "a" "p(\x22//\x22,x/2 .y);").map Token.face
    ∧ tokenTexts (scan "a" "p(\x22//\x22,x/2 .y);")
      = tokenTexts (scan "b" " p ( \x22//\x22 ,//one\nx / 2. y ) ; // end")
    ∧ (parseText .stop 0 "a" "p(\x22//\x22,x/2 .y);").toOption.map itemsPlaceless
      = (parseText .stop 0 "b" " p ( \x22//\x22 ,//one\nx / 2. y ) ; // end").toOption.map
        itemsPlaceless := by
  have hclosing : closingKind (scan "a" "p(\x22//\x22,x/2 .y);") = some .endOfFile := by
    decide +kernel
  have htexts : tokenTexts (scan "a" "p(\x22//\x22,x/2 .y);")
      = tokenTexts (scan "b" " p ( \x22//\x22 ,//one\nx / 2. y ) ; // end") := by
    decide +kernel
  exact ⟨hclosing, (layout_immaterial "a" "b" _).1 hclosing, htexts,
    (layout_immaterial "a" "b" _).2 .stop 0 _ htexts (by decide +kernel)⟩

end Eleu
