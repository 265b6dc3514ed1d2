import Eleu.Proofs.Tree.Law

/-! # Stopping at the first error and resuming after it

    A parser that stops at the first error and one that resumes after it read a text in the same
    way up to that error. There they part: the first one gives up, through all the blocks,
    functions and classes around the item, and the second one notes the error down at that item and
    goes on. Whatever it finds later, the error stays the first one that it has noted
    (`Parser.Coupled`). So both accept the same texts, with the same items, and the only error of the
    one is the first error of the other (`modes_agree`). -/

namespace Eleu

open Outcome

namespace Parser

variable {α β : Type}

/-- The outcomes of a parser that stops at the first error and of one that resumes after it, both
    started when the errors `ds` had been reported. Either they are the same and nothing was reported,
    or the first ends with an error that the second has reported right after `ds`. -/
inductive InStep (ds : List Diagnostic) :
    EStateM.Result Rejection Cursor α → EStateM.Result Rejection Cursor α → Prop where
  | same {x : EStateM.Result Rejection Cursor α}
      (silent : Ends x (fun _ c => c.reported = ds) fun _ c => c.reported = ds) : InStep ds x x
  | parted {d : Diagnostic} {c : Cursor} {x : EStateM.Result Rejection Cursor α}
      (stopped : c.reported = ds)
      (first : Ends x (fun _ c => d :: ds <:+ c.reported) fun _ c => d :: ds <:+ c.reported) :
      InStep ds (.error (.error d) c) x

/-- Wherever they start, the parsers read alike up to the first error. -/
def Coupled (p q : Parser α) : Prop := ∀ c, InStep c.reported (p c) (q c)

/-- A parser that resumes adds to the errors. -/
theorem InStep.adds {ds : List Diagnostic} {x y : EStateM.Result Rejection Cursor α}
    (h : InStep ds x y) : Ends y (fun _ c => ds <:+ c.reported) fun _ c => ds <:+ c.reported := by
  cases h with
  | same hq => exact hq.mono (fun _ _ hc => hc ▸ List.suffix_refl _) fun _ _ hc => hc ▸ List.suffix_refl _
  | parted _ hf =>
    exact hf.mono (fun _ _ hc => (List.suffix_cons _ _).trans hc) fun _ _ hc =>
      (List.suffix_cons _ _).trans hc

namespace Coupled

variable {p q : Parser α} {f g : α → Parser β}

theorem bind (hp : Coupled p q) (hf : ∀ a, Coupled (f a) (g a)) : Coupled (p >>= f) (q >>= g) := by
  intro c
  have h := hp c
  rw [bind_apply, bind_apply]
  generalize p c = x at h
  generalize q c = y at h
  cases h with
  | same hq =>
    cases x with
    | ok a c' =>
      have hrest := hf a c'
      rw [show c'.reported = c.reported from hq] at hrest
      exact hrest
    | error e c' => exact .same hq
  | parted hs hd =>
    -- what the second parser does from here on cannot take back what it has reported
    refine .parted hs ?_
    cases y with
    | ok a c' =>
      exact ((hf a c').adds).mono (fun _ _ h => List.IsSuffix.trans hd h) fun _ _ h =>
        List.IsSuffix.trans hd h
    | error e c' => exact hd

/-- The error of an item is where the two part. -/
theorem recovering (hp : Coupled p q) : Coupled (recovering .stop p) (recovering .resume q) := by
  intro c
  have h := hp c
  unfold Parser.recovering
  generalize p c = x at h
  generalize q c = y at h
  cases h with
  | same hq =>
    cases x with
    | ok a c' => exact .same hq
    | error e c' =>
      cases e with
      | outOfRounds => exact .same hq
      | error d =>
        have hnoted : (Cursor.recover { c' with reported := d :: c'.reported }).reported
            = d :: c.reported := (Cursor.reported_recover _).trans (congrArg (d :: ·) hq)
        exact .parted hq (hnoted ▸ List.suffix_refl _)
  | @parted d c₁ _ hs hd =>
    refine .parted hs ?_
    cases y with
    | ok a c' => exact hd
    | error e c' =>
      cases e with
      | outOfRounds => exact hd
      | error d' =>
        show d :: c.reported <:+ (Cursor.recover { c' with reported := d' :: c'.reported }).reported
        rw [Cursor.reported_recover]
        exact List.IsSuffix.trans hd (List.suffix_cons d' _)

/-- Up to the first error, all rules read alike. -/
theorem law : Law true fun _ p q => Coupled p q where
  pure {_ f _ a _} h c := by
    rw [h, Faithful.eq_self (f := f) rfl]
    exact .same rfl
  bind {_ _ f _ _ _ _ _ _} hp hk := hp.bind fun a => by
    have hrest := hk a
    rwa [Faithful.eq_self (f := f) rfl] at hrest
  spent _ := .same rfl
  peek _ := .same rfl
  previous _ := .same rfl
  atEnd _ := .same rfl
  advance c := .same c.reported_next
  freshId _ := .same rfl
  reject span _ _ c := by
    rw [reject_apply, reject_apply]
    exact .same rfl

theorem program (unit n : Nat) : Coupled (program .stop unit n) (program .resume unit n) :=
  law.program recovering unit n

end Coupled

end Parser

/-! ## Whole texts -/

/-- The first of the errors is left. -/
theorem squeeze_cons (d : Diagnostic) (ds : List Diagnostic) : ∃ rest, squeeze (d :: ds) = d :: rest := by
  rw [squeeze]
  split
  · exact ⟨[], rfl⟩
  · next e es _ =>
      by_cases h : d = e
      · rw [if_pos h, h]
        exact ⟨es, rfl⟩
      · rw [if_neg h]
        exact ⟨e :: es, rfl⟩

/-- Both modes accept, with the same items, or both reject, and the error at which the first stops is the
    first of those that the second has collected. -/
def SameVerdict (stop resume : Except (List Diagnostic) (List Item)) : Prop :=
  (∃ items, stop = .ok items ∧ resume = .ok items)
    ∨ ∃ first rest, stop = .error [first] ∧ resume = .error (first :: rest)

/-- What is made of the items of a token list and of the errors found in it, the latest first. -/
def judge (items : List Item) (errors : List Diagnostic) : Except (List Diagnostic) (List Item) :=
  match squeeze errors.reverse with
  | [] => .ok items
  | errors => .error errors

/-- No error was reported. The text may still be closed by a lexical error, in both modes. -/
theorem sameVerdict_of_silent (items : List Item) (closing : Token) :
    SameVerdict (judge items (withLexicalError .stop closing []))
      (judge items (withLexicalError .resume closing [])) := by
  unfold withLexicalError
  cases closing.kind with
  | invalid e => exact .inr ⟨_, [], rfl, rfl⟩
  | symbol | keyword | name | string | number | endOfFile => exact .inl ⟨items, rfl, rfl⟩

/-- The first parser has stopped at the error `d`, which the second one has reported first. -/
theorem sameVerdict_of_parted (items items' : List Item) {d : Diagnostic} (closing closing' : Token)
    {ds : List Diagnostic} (h : [d] <:+ ds) :
    SameVerdict (judge items (withLexicalError .stop closing [d]))
      (judge items' (withLexicalError .resume closing' ds)) := by
  have hstop : withLexicalError .stop closing [d] = [d] := by
    unfold withLexicalError
    split <;> rfl
  have hresume : [d] <:+ withLexicalError .resume closing' ds := by
    unfold withLexicalError
    split
    · rw [if_pos (by rw [Bool.or_eq_true]; exact .inr rfl)]
      exact h.trans (List.suffix_cons _ _)
    · exact h
  obtain ⟨later, hlater⟩ := hresume
  obtain ⟨rest, hrest⟩ := squeeze_cons d later.reverse
  unfold judge
  rw [hstop, ← hlater, List.reverse_append, List.reverse_singleton, List.singleton_append, hrest]
  exact .inr ⟨d, rest, rfl, rfl⟩

/-- The items and the errors of a token list whose parser has ended with `x`. -/
def conclude (r : Recovery) (x : EStateM.Result Rejection Cursor (List Item)) :
    Except (List Diagnostic) (List Item) :=
  match x with
  | .ok items c => judge items (withLexicalError r c.current c.reported)
  | .error (.error d) c => judge [] (withLexicalError r c.current (d :: c.reported))
  | .error .outOfRounds c => judge [] (withLexicalError r c.current c.reported)

theorem parse_cons (r : Recovery) (unit : Nat) (t : Token) (ts : List Token) :
    parse r unit (t :: ts) = conclude r (Parser.program r unit (roundsFor (t :: ts))
      { previous := t, rest := t :: ts, lastId := 0, reported := [] }) := by
  unfold parse conclude judge
  dsimp only
  generalize Parser.program r unit (roundsFor (t :: ts)) _ = x
  cases x with
  | ok items c => rfl
  | error e c =>
    cases e with
    | error d => rfl
    | outOfRounds => rfl

theorem Parser.InStep.sameVerdict {x y : EStateM.Result Rejection Cursor (List Item)}
    (h : Parser.InStep [] x y) : SameVerdict (conclude .stop x) (conclude .resume y) := by
  cases h with
  | same hq =>
    cases x with
    | ok items c =>
      have hc : c.reported = [] := hq
      simp only [conclude, hc]
      exact sameVerdict_of_silent items c.current
    | error e c =>
      have hc : c.reported = [] := hq
      cases e with
      | outOfRounds =>
        simp only [conclude, hc]
        exact sameVerdict_of_silent [] c.current
      | error d =>
        simp only [conclude, hc]
        exact sameVerdict_of_parted [] [] _ _ (List.suffix_refl [d])
  | @parted d c _ hs hd =>
    cases y with
    | ok items c' =>
      simp only [conclude, hs]
      exact sameVerdict_of_parted [] items _ _ hd
    | error e c' =>
      cases e with
      | outOfRounds =>
        simp only [conclude, hs]
        exact sameVerdict_of_parted [] [] _ _ hd
      | error d' =>
        simp only [conclude, hs]
        exact sameVerdict_of_parted [] [] _ _ (List.IsSuffix.trans hd (List.suffix_cons d' _))

/-- A text is accepted in both modes of the parser, and then as the same items with the same ids and
    places, or in neither. Where parsing stops at the first error there is just that error, and it is
    the first of those that are found where parsing resumes after errors. -/
theorem modes_agree (unit : Nat) (file source : String) :
    (∃ items, parseText .stop unit file source = .ok items
        ∧ parseText .resume unit file source = .ok items)
      ∨ ∃ first rest, parseText .stop unit file source = .error [first]
        ∧ parseText .resume unit file source = .error (first :: rest) := by
  unfold parseText
  cases scan file source with
  | nil => exact .inl ⟨[], rfl, rfl⟩
  | cons t ts =>
    rw [parse_cons, parse_cons]
    exact (Parser.Coupled.program unit (roundsFor (t :: ts))
      { previous := t, rest := t :: ts, lastId := 0, reported := [] }).sameVerdict

end Eleu
