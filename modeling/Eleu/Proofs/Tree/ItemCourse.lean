import Eleu.Proofs.Tree.Course

/-! # The course of the parser through items

    The parsers of statements and declarations, described in the same way as those of expressions: what
    they read, which ids they hand out, and how many rounds they need at the token that they start with.
    A parser that resumes after errors moves on just like one that stops, but only the latter is known to
    have read all the tokens that it has passed, so what was read is stated of that one.

    Of a statement the token after it is described, too: after one that could still take an `else`
    there is none (`StatementRead.settled`). That is why the first branch of an `if` with an `else` is
    never open. -/

namespace Eleu

variable {t : Token} {unit j : Nat} {r : Recovery}

namespace Parser

/-- As `Goes`, of a parser on a whole token list. -/
abbrev Moves {α : Type} (tokens : List Token) (k : Nat) (few : Prop) (i l : Nat) (p : Parser α)
    (Q : (j last : Nat) → α → Prop) : Prop := Goes (Cursor.At tokens) k few i l p Q

variable {α β : Type} {tokens : List Token} {few : Prop} {i l n : Nat} {G : Gauge tokens}
  {R : Nat → Nat → β → Prop}

/-! ## Parts of items -/

theorem semicolon_moves {f : Unit → Parser β}
    (hf : ShownAt tokens i (.fixed (.symbol .semicolon)) → Moves tokens 0 few (i + 1) l (f ()) R) :
    Moves tokens 0 few i l (semicolon >>= f) R := by
  have hsemicolon : Moves tokens 0 few i l semicolon fun j last _ =>
      j = i + 1 ∧ last = l ∧ ShownAt tokens i (.fixed (.symbol .semicolon)) :=
    .expect rfl fun t ht hk => .pure ⟨rfl, rfl, t, ht, hk⟩
  refine hsemicolon.bind ?_
  rintro _ _ _ - ⟨rfl, rfl, hshown⟩
  exact hf hshown

theorem parenthesised_moves (G : Gauge tokens) (n i l : Nat) :
    Moves tokens 0 (Short tokens n i 1) i l (parenthesised n) fun j last e =>
      i < j ∧ ParenthesisedFrom G e i j ∧ Issued l last e.ids := by
  refine .expect rfl fun t ht hk => ((expression_goes G n (i + 1) l).within (by omega)).bind ?_
  rintro m last e - ⟨hlt, he⟩
  exact .expect rfl fun u hu hk' => .pure ⟨by omega, ⟨m, rfl, ⟨t, ht, hk⟩, he.read, u, hu, hk'⟩, he.ids⟩

/-- An expression that some token shows to be missing. -/
theorem optional_moves (G : Gauge tokens) (n i : Nat) {b : Bool} {f : Option Expr → Parser β}
    (hfew : Short tokens n i 15 → few)
    (hf : ∀ j last e, i ≤ j → optionReadFrom G e i j ∧ Issued l last (optionIds e) →
      Moves tokens 0 few j last (f e) R) :
    Moves tokens 0 few i l (if b = true then pure none >>= f else (some <$> expression n) >>= f) R := by
  refine .choice (fun _ => .pure ⟨rfl, .nil⟩) (fun _ => .map ?_) hf
  exact (expression_goes G n i l).mono hfew fun _ _ _ _ h => ⟨h.2.read, h.2.ids⟩

theorem checkBody_moves {afterParen : Bool} {f : Unit → Parser β}
    (hf : (afterParen = true → ¬ ShownAt tokens i (.fixed (.symbol .semicolon))) →
      Moves tokens 0 few i l (f ()) R) : Moves tokens 0 few i l (checkBody afterParen >>= f) R := by
  have hcheck : Moves tokens 0 few i l (checkBody afterParen) fun j last _ =>
      j = i ∧ last = l ∧ (afterParen = true → ¬ ShownAt tokens i (.fixed (.symbol .semicolon))) := by
    refine .peek fun t ht => ?_
    split
    · cases afterParen with
      | true => exact .reject _ _
      | false => exact .pure ⟨rfl, rfl, nofun⟩
    · exact .reject _ _
    · exact .reject _ _
    · exact .reject _ _
    · next hsemicolon _ _ _ =>
        refine .pure ⟨rfl, rfl, ?_⟩
        rintro - ⟨u, hu, hk⟩
        obtain rfl : t = u := Option.some.inj (ht.symm.trans hu)
        exact hsemicolon hk
  refine hcheck.bind ?_
  rintro _ _ _ - ⟨rfl, rfl, hbody⟩
  exact hf hbody

/-- The item was read from the tokens from `i` up to `j`, its ids were handed out after `l` and up to
    `last`, and the declarations in it belong to the text `unit`. -/
structure Taken (G : Gauge tokens) (unit i l j last : Nat) (x : Item) : Prop where
  read : x.ReadFrom G i j
  ids : Issued l last x.ids
  ofUnit : OfUnit unit x.declarations

theorem varDeclaration_moves (G : Gauge tokens) (unit n : Nat) (ht : tokens[i]? = some t)
    (hk : t.kind = .keyword .var) :
    Moves tokens 1 (Short tokens n i 1) i l (varDeclaration n) fun j last x =>
      x.InitialiserFrom G i j ∧ Taken G unit i l j last x := by
  have hrest : ∀ (name : Token) (init : Option Expr) (m last : Nat), tokens[i + 1]? = some name →
      name.kind = .name → i + 2 ≤ m → valueReadFrom G init (i + 2) m ∧ Issued l last (optionIds init) →
      Moves tokens 0 (Short tokens n i 1) m last
        (do semicolon; return Item.var name.lexeme init (← spanFrom t.span)) fun j last x =>
          x.InitialiserFrom G i j ∧ Taken G unit i l j last x := by
    intro name init m last hname hkind hle hinit
    refine semicolon_moves fun hsemicolon => .spanFrom (G.token ht) (by omega) fun span hspan => ?_
    have hvar : VarReadFrom G name.lexeme init span i (m + 1) :=
      ⟨hspan, m, rfl, ⟨t, ht, hk⟩, ⟨name, hname, hkind, rfl⟩, hinit.1, hsemicolon⟩
    exact .pure ⟨hvar, hvar, hinit.2, .nil⟩
  refine .advance ht (by rw [hk]; rfl) (.peek fun u _ => ?_)
  dsimp only
  split
  · exact .reject_bind _ _
  · let Q := fun j last init => valueReadFrom G init (i + 2) j ∧ Issued l last (optionIds init)
    refine .expect rfl fun name hname hkind => .accept rfl (fun hequal => ?_) fun _ => ?_
    · refine .bind (Q := Q) (.map ?_) fun m last init hle hinit =>
        hrest name init m last hname hkind (by omega) hinit
      exact (expression_goes G n (i + 3) l).mono (by omega) fun _ _ _ _ h =>
        ⟨⟨hequal, h.2.read⟩, h.2.ids⟩
    · exact .bind (Q := Q) (.pure ⟨rfl, .nil⟩) fun m last init hle hinit =>
        hrest name init m last hname hkind (by omega) hinit

/-! ## Simple statements -/

/-- What is known of a statement that was read from the token `i` up to the token `j`. -/
structure StatementRead (G : Gauge tokens) (r : Recovery) (unit i l j last : Nat) (x : Item) : Prop where
  taken : r = .stop → Taken G unit i l j last x
  settled : x.isOpen = true → ¬ ShownAt tokens j (.fixed (.keyword .else))
  plain : x.isDeclaration = false
  present : ¬ ShownAt tokens i (.fixed (.symbol .semicolon)) → x.isEmpty = false

/-- A statement without bodies, and not the empty one. -/
theorem StatementRead.simple {last : Nat} {x : Item} (htaken : Taken G unit i l j last x)
    (hopen : x.isOpen = false) (hplain : x.isDeclaration = false) (hempty : x.isEmpty = false) :
    StatementRead G r unit i l j last x :=
  ⟨fun _ => htaken, fun h => (nomatch hopen.symm.trans h), hplain, fun _ => hempty⟩

/-- The message of an assertion, if there is one, and the semicolon. -/
theorem message_moves {f : Option String → Parser β}
    (hf : ∀ message j, i < j → messageReadFrom tokens message i j →
      Moves tokens 0 few j l (f message) R) :
    Moves tokens 0 few i l (do
      let t ← peek
      let message := if t.kind == .string then some t.lexeme else none
      let _ ← accept .string
      semicolon
      f message) R := by
  refine .peek fun t ht => .accept rfl (fun hstring => ?_) fun hstring => ?_
  · obtain ⟨t', ht', hkind⟩ := hstring
    obtain rfl : t = t' := Option.some.inj (ht.symm.trans ht')
    have hkind : t.kind = .string := hkind
    refine semicolon_moves fun hsemicolon => ?_
    rw [hkind]
    exact hf _ (i + 2) (by omega) ⟨rfl, ⟨t, ht, hkind, rfl⟩, hsemicolon⟩
  · have hkind : (t.kind == .string) = false :=
      beq_eq_false_iff_ne.2 fun hkind => hstring ⟨t, ht, hkind⟩
    refine semicolon_moves fun hsemicolon => ?_
    rw [hkind]
    exact hf _ (i + 1) (by omega) ⟨rfl, hsemicolon⟩

theorem assertion_moves (G : Gauge tokens) (r : Recovery) (unit n : Nat) (ht : tokens[i]? = some t)
    (hk : t.kind = .keyword .assert) :
    Moves tokens 1 (Short tokens n i 1) i l (assertion n) (StatementRead G r unit i l) := by
  refine .advance ht (by rw [hk]; rfl) (.accept rfl (fun hbreak => ?_) fun _ => ?_)
  · refine ((expression_goes G n (i + 2) l).within (by omega)).bind ?_
    rintro m last e - ⟨hlt, he⟩
    refine message_moves (f := fun message => do return Item.assertFails e message (← spanFrom t.span))
      fun message j hlt' hmessage => ?_
    refine .spanFrom (G.token ht) (by omega) fun span hspan => .pure ?_
    exact .simple ⟨⟨hspan, m, ⟨t, ht, hk⟩, hbreak, he.read, hmessage⟩, he.ids, .nil⟩ rfl rfl rfl
  · refine ((expression_goes G n (i + 1) l).within (by omega)).bind ?_
    rintro m last e - ⟨hlt, he⟩
    refine message_moves (f := fun message => do return Item.assert e message (← spanFrom t.span))
      fun message j hlt' hmessage => ?_
    refine .spanFrom (G.token ht) (by omega) fun span hspan => .pure ?_
    exact .simple ⟨⟨hspan, m, ⟨t, ht, hk⟩, he.read, hmessage⟩, he.ids, .nil⟩ rfl rfl rfl

theorem returnStatement_moves (G : Gauge tokens) (r : Recovery) (unit n : Nat)
    (ht : tokens[i]? = some t) (hk : t.kind = .keyword .return) :
    Moves tokens 1 (Short tokens n i 1) i l (returnStatement n) (StatementRead G r unit i l) := by
  refine .advance ht (by rw [hk]; rfl) (.check fun b _ => ?_)
  refine optional_moves G n (i + 1) (by omega) fun m last value hle hvalue => ?_
  refine semicolon_moves fun hsemicolon => .spanFrom (G.token ht) (by omega) fun span hspan => .pure ?_
  exact .simple ⟨⟨hspan, m, rfl, ⟨t, ht, hk⟩, hvalue.1, hsemicolon⟩, hvalue.2, .nil⟩ rfl rfl rfl

/-- A statement that is a keyword and a semicolon. -/
theorem keywordStatement_moves {make : Span → Item} (ht : tokens[i]? = some t)
    (hk : t.kind.closes = false)
    (hmake : ∀ span, G.fits i (i + 2) span → ShownAt tokens (i + 1) (.fixed (.symbol .semicolon)) →
      StatementRead G r unit i l (i + 2) l (make span)) :
    Moves tokens 1 few i l
      (do let start := (← advance).span; semicolon; return make (← spanFrom start))
      (StatementRead G r unit i l) := by
  refine .advance ht hk (semicolon_moves fun hsemicolon => ?_)
  exact .spanFrom (G.token ht) (by omega) fun span hspan => .pure (hmake span hspan hsemicolon)

/-- An expression with its semicolon, or the empty statement. -/
theorem expressionStatement_moves (G : Gauge tokens) (n i l : Nat) (restricted : Bool) :
    Moves tokens 1 (Short tokens n i 15) i l (expressionStatement n restricted) fun j last x =>
      ∃ e span m, x = .expr e span ∧ G.fits i j span ∧ j = m + 1
        ∧ ShownAt tokens m (.fixed (.symbol .semicolon)) ∧ Issued l last e.ids
        ∧ ((restricted = true → standsAlone e = true) ∧ e.ReadFrom G i m
          ∨ i = m ∧ e = .literal .nil span) := by
  refine .peek fun t ht => .accept rfl (fun hsemicolon => ?_) fun _ => ?_
  · exact .pure ⟨_, _, i, rfl, G.token ht, rfl, hsemicolon, .nil, .inr ⟨rfl, rfl⟩⟩
  · refine ((goExprs _ G n).expression i l).bind fun m last e hlt he => ?_
    cases hstands : restricted && !standsAlone e with
    | true => exact .reject_bind _ _
    | false =>
      refine semicolon_moves fun hsemicolon => .spanFrom (G.token ht) (by omega) fun span hspan => .pure ?_
      refine ⟨e, span, m, rfl, hspan, rfl, hsemicolon, he.ids, .inl ⟨?_, he.read⟩⟩
      rintro rfl
      simpa using hstands

/-- Of the statements that are expressions, only a semicolon alone is empty. -/
theorem StatementRead.expression {last : Nat} {e : Expr} {span : Span}
    (hread : (Item.expr e span).ReadFrom G i j) (hids : Issued l last e.ids) :
    StatementRead G r unit i l j last (.expr e span) := by
  refine ⟨fun _ => ⟨hread, hids, .nil⟩, nofun, rfl, fun hpresent => ?_⟩
  obtain ⟨-, m, -, hsemicolon, ⟨hstands, -⟩ | ⟨rfl, -⟩⟩ := hread
  · cases e <;> first | rfl | exact nomatch hstands
  · exact absurd hsemicolon hpresent

/-! ## The head of a `for` -/

/-- The initialiser of a `for` with its semicolon, which stands alone if there is none. -/
def initialiserReadFrom (G : Gauge tokens) : Option Item → (i j : Nat) → Prop
  | none, i, j => j = i + 1 ∧ ShownAt tokens i (.fixed (.symbol .semicolon))
  | some x, i, j => x.InitialiserFrom G i j

theorem forInitialiser_moves (G : Gauge tokens) (unit n i l : Nat) :
    Moves tokens 0 (Short tokens n i 15) i l (forInitialiser n) fun j last init =>
      i < j ∧ initialiserReadFrom G init i j ∧ Issued l last (itemsIds init.toList)
        ∧ OfUnit unit (declarationsIn init.toList) := by
  refine .peek fun t ht => ?_
  split
  · next hk =>
      exact .advance ht (by rw [hk]; rfl) (.pure ⟨by omega, ⟨rfl, t, ht, hk⟩, .nil, .nil⟩)
  · next hk =>
      exact .map ((varDeclaration_moves G unit n ht hk).moves.mono (by omega) fun _ _ _ _ h =>
        ⟨h.1, h.2.1, h.2.2.ids.append .nil, h.2.2.ofUnit.append .nil⟩)
  · next hsemicolon _ =>
      refine .map ((expressionStatement_moves G n i l false).moves.mono id ?_)
      rintro j last x - ⟨hlt, e, span, m, rfl, hspan, rfl, hshown, hids, ⟨-, he⟩ | ⟨rfl, -⟩⟩
      · exact ⟨hlt, ⟨hspan, m, rfl, he, hshown⟩, hids.append .nil, .nil⟩
      · -- A semicolon alone would have been the first case.
        obtain ⟨u, hu, hk⟩ := hshown
        obtain rfl : t = u := Option.some.inj (ht.symm.trans hu)
        exact absurd hk hsemicolon

/-- The head of a `for` at the token `k`, after its keyword. -/
def ForFrom (G : Gauge tokens) (init : Option Item) (c : Expr) (increment : Option Expr) (k j : Nat) :
    Prop :=
  ShownAt tokens (k + 1) (.fixed (.symbol .leftParen))
    ∧ ∃ m, initialiserReadFrom G init (k + 2) m ∧ ForHeadFrom G c increment k m j

theorem forHead_moves (G : Gauge tokens) (unit n i l : Nat) (start : Span) :
    Moves tokens 0 (Short tokens n i 1) i l (forHead n start) fun j last head =>
      i < j ∧ (∀ k, i = k + 1 → G.fits k i start → ForFrom G head.1 head.2.1 head.2.2 k j)
        ∧ Issued l last (itemsIds head.1.toList ++ head.2.1.ids ++ optionIds head.2.2)
        ∧ OfUnit unit (declarationsIn head.1.toList) := by
  refine .expect rfl fun open_ hopen hkind => ?_
  refine ((forInitialiser_moves G unit n (i + 1) l).within (by omega)).bind ?_
  rintro m l₁ init - ⟨hlt, hinit, hids, hunit⟩
  refine .check fun b _ => ?_
  refine .choice (Q := fun a last c =>
      (c.ReadFrom G m a ∨ m = a ∧ c = .literal (.bool true) start) ∧ Issued l₁ last c.ids)
    (fun _ => .pure ⟨.inr ⟨rfl, rfl⟩, .nil⟩)
    (fun _ => (expression_goes G n m l₁).mono (by omega) fun _ _ _ _ h => ⟨.inl h.2.read, h.2.ids⟩)
    fun a l₂ c hle hc => ?_
  refine semicolon_moves fun hsemicolon => .check fun b _ => ?_
  refine optional_moves G n (a + 1) (by omega) fun b last increment hle' hincrement => ?_
  refine .expect rfl fun close hclose hkind' =>
    .pure ⟨by omega, ?_, (hids.append hc.2).append hincrement.2, hunit⟩
  rintro k rfl hstart
  refine ⟨⟨open_, hopen, hkind⟩, m, hinit, a, b, rfl, ?_, hsemicolon, hincrement.1, close, hclose, hkind'⟩
  exact hc.1.imp_right fun h => ⟨h.1, start, h.2, hstart⟩

theorem forLoop_readFrom {init : Option Item} {c : Expr} {increment : Option Expr} {body : Item}
    {span : Span} {k m : Nat} (hspan : G.fits k j span)
    (hfor : ShownAt tokens k (.fixed (.keyword .for))) (hhead : ForFrom G init c increment k m)
    (hbody : body.IsBody) (hread : body.ReadFrom G m j) :
    (forLoop init c increment body span).ReadFrom G k j := by
  obtain ⟨hparen, a, hinit, hhead⟩ := hhead
  cases init with
  | none =>
    obtain ⟨rfl, hsemicolon⟩ := hinit
    exact ⟨hspan, m, .inr ⟨hfor, hparen, hsemicolon, hhead⟩, hbody, hread⟩
  | some x => exact ⟨hspan, .inr ⟨hfor, hparen, a, hinit, rfl, hspan, m, hhead, hbody, hread⟩⟩

/-- The body of a loop is read after its increment. -/
theorem ids_forLoop (init : Option Item) (condition : Expr) (increment : Option Expr) (body : Item)
    (span : Span) : (itemsIds init.toList ++ condition.ids ++ optionIds increment ++ body.ids).Perm
      (forLoop init condition increment body span).ids := by
  have hloop : (condition.ids ++ (optionIds increment ++ body.ids)).Perm
      (Item.while condition body increment span).ids := List.perm_append_comm.append_left _
  cases init with
  | none => simpa [itemsIds, forLoop] using hloop
  | some i => simpa [itemsIds, forLoop, Item.ids] using hloop.append_left i.ids

theorem declarations_forLoop (init : Option Item) (condition : Expr) (increment : Option Expr) (body : Item)
    (span : Span) : (forLoop init condition increment body span).declarations
      = declarationsIn init.toList ++ body.declarations := by
  cases init with
  | none => rfl
  | some i => simp [forLoop, Item.declarations, declarationsIn]

/-! ## Names -/

theorem parameters_moves (n i l count : Nat) :
    Moves tokens 0 (Short tokens n i 1) i l (parameters n count) fun j last ps =>
      last = l ∧ paramsReadFrom tokens ps i j ∧ ps ≠ [] ∧ count + ps.length ≤ maxArguments := by
  induction n generalizing i count with
  | zero => exact .spent fun h => by omega
  | succ n ih =>
    rw [parameters]
    by_cases hcount : maxArguments ≤ count
    · rw [if_pos hcount]
      exact .peek fun _ _ => .reject_bind _ _
    · rw [if_neg hcount]
      refine .expect rfl fun name hname hkind => .accept rfl (fun hcomma => ?_) fun _ => ?_
      · refine ((ih (i + 2) (count + 1)).within (by omega)).bind ?_
        rintro j _ ps - ⟨rfl, hps, hne, hlen⟩
        refine .pure ⟨rfl, ⟨⟨name, hname, hkind, rfl⟩, furtherParamsFrom_of_comma hne hcomma hps⟩,
          List.cons_ne_nil _ _, ?_⟩
        rw [List.length_cons]
        omega
      · exact .pure ⟨rfl, ⟨⟨name, hname, hkind, rfl⟩, rfl⟩, List.cons_ne_nil _ _, by
          rw [List.length_singleton]
          omega⟩

theorem superclass_moves (i l : Nat) :
    Moves tokens 0 few i l superclass fun j last parent =>
      parentReadFrom tokens parent i j ∧ Issued l last (parent.map (·.id)).toList := by
  refine .accept rfl (fun hless => ?_) fun _ => .pure ⟨rfl, .nil⟩
  refine .expect rfl fun parent hparent hkind => .map (.freshId (.pure ?_))
  exact ⟨⟨rfl, hless, parent, hparent, hkind, rfl⟩, .one⟩

/-! ## Items -/

/-- An error ends the parse, or is noted down and the cursor moves on from it. -/
theorem recovering_moves {p : Parser α} {Q : Nat → Nat → α → Prop} (hi : i + 1 < tokens.length)
    (hp : Moves tokens 1 few i l p fun j last a => r = .stop → Q j last a) :
    Moves tokens 0 few i l (recovering r p) fun j last x =>
      i < j ∧ (r = .stop → ∃ a, x = some a ∧ Q j last a) := by
  intro c hc hl
  have hends := hp c hc hl
  rw [recovering]
  cases hx : p c with
  | ok a c' =>
    rw [hx] at hends
    obtain ⟨j, htrail, hlt, hQ⟩ := hends
    exact ⟨j, htrail, htrail.le, hlt, fun hstop => ⟨a, rfl, hQ hstop⟩⟩
  | error e c' =>
    rw [hx] at hends
    obtain ⟨j, htrail, hfew, -⟩ := hends
    cases e with
    | outOfRounds => exact ⟨j, htrail, hfew, nofun⟩
    | error d =>
      cases r with
      | stop => exact ⟨j, htrail, nofun, nofun⟩
      | resume =>
        -- The item is gone, so nothing is said of what it was read from.
        obtain ⟨k, hrecover, hlt, -⟩ := htrail.recover_report d hi
        exact ⟨k, hrecover, hrecover.le, hlt, nofun⟩

/-- As `Taken`, of items one after the other. -/
structure ItemsTaken (G : Gauge tokens) (unit i l j last : Nat) (xs : List Item) : Prop where
  read : itemsReadFrom G xs i j
  ids : Issued l last (itemsIds xs)
  ofUnit : OfUnit unit (declarationsIn xs)

/-- As `Taken`, of a function whose place begins at `o`. -/
structure FunctionTaken (G : Gauge tokens) (unit o i l j last : Nat) (d : FunctionDecl) : Prop where
  read : d.ReadFrom G o i j
  ids : Issued l last d.ids
  ofUnit : OfUnit unit d.declarations

/-- As `Taken`, of methods one after the other. -/
structure MethodsTaken (G : Gauge tokens) (unit i l j last : Nat) (ds : List FunctionDecl) : Prop where
  read : methodsReadFrom G ds i j
  ids : Issued l last (methodsIds ds)
  ofUnit : OfUnit unit (declarationsInMethods ds)

theorem ItemsTaken.nil : ItemsTaken G unit i l i l [] := ⟨rfl, .nil, .nil⟩

theorem ItemsTaken.cons {m l₁ last : Nat} {x : Item} {xs : List Item} (hx : Taken G unit i l m l₁ x)
    (hxs : ItemsTaken G unit m l₁ j last xs) : ItemsTaken G unit i l j last (x :: xs) :=
  ⟨⟨m, hx.read, hxs.read⟩, hx.ids.append hxs.ids, hx.ofUnit.append hxs.ofUnit⟩

/-- What all parsers of items do with `n` rounds. -/
structure MoveItems (G : Gauge tokens) (r : Recovery) (unit n : Nat) : Prop where
  declaration : ∀ i l, i + 1 < tokens.length →
    Moves tokens 0 (Short tokens n i 18) i l (declaration r unit n) fun j last x =>
      i < j ∧ (r = .stop → ∃ a, x = some a ∧ Taken G unit i l j last a)
  item : ∀ i l, Moves tokens 1 (Short tokens n i 17) i l (item r unit n) fun j last x =>
    r = .stop → Taken G unit i l j last x
  statement : ∀ i l, Moves tokens 1 (Short tokens n i 16) i l (statement r unit n)
    (StatementRead G r unit i l)
  bodyStatement : ∀ i l afterParen,
    Moves tokens 0 (Short tokens n i 17) i l (bodyStatement r unit n afterParen) fun j last x =>
      i < j ∧ StatementRead G r unit i l j last x ∧ (afterParen = true → x.isEmpty = false)
  blockItems : ∀ i l, Moves tokens 0 (Short tokens n i 19) i l (blockItems r unit n) fun j last xs =>
    i < j ∧ (r = .stop → ∃ m, j = m + 1 ∧ ItemsTaken G unit i l m last xs
      ∧ ShownAt tokens m (.fixed (.symbol .rightBrace)))
  function : ∀ o i l kind start, G.fits o (o + 1) start → o ≤ i →
    Moves tokens 0 (Short tokens n i 1) i l (function r unit n kind start) fun j last d =>
      i < j ∧ d.kind = kind ∧ (r = .stop → FunctionTaken G unit o i l j last d)
  classDeclaration : ∀ i l t, tokens[i]? = some t → t.kind = .keyword .class →
    Moves tokens 1 (Short tokens n i 1) i l (classDeclaration r unit n) fun j last x =>
      r = .stop → Taken G unit i l j last x
  methods : ∀ i l, Moves tokens 0 (Short tokens n i 2) i l (methods r unit n) fun j last ds =>
    r = .stop → MethodsTaken G unit i l j last ds

section

variable {r : Recovery} {unit : Nat}

theorem item_moves (ih : MoveItems G r unit n) (i l : Nat) :
    Moves tokens 1 (Short tokens (n + 1) i 17) i l (item r unit (n + 1)) fun j last x =>
      r = .stop → Taken G unit i l j last x := by
  rw [item]
  refine .peek fun t ht => ?_
  split
  · next hk =>
      refine .advance ht (by rw [hk]; rfl) ?_
      refine ((ih.function i (i + 1) l .function t.span (G.token ht) (by omega)).within (by omega)).bind ?_
      rintro j last d - ⟨hlt, hkind, hd⟩
      exact .pure fun hstop => ⟨⟨(hd hstop).read.fits, ⟨t, ht, hk⟩, hkind, (hd hstop).read⟩,
        (hd hstop).ids, (hd hstop).ofUnit⟩
  · next hk => exact (ih.classDeclaration i l t ht hk).within (by omega)
  · next hk => exact (varDeclaration_moves G unit n ht hk).mono (by omega) fun _ _ _ _ h _ => h.2
  · exact (ih.statement i l).mono (by omega) fun _ _ _ _ h => h.taken

/-- A statement right after a closing parenthesis. -/
structure BodyRead (G : Gauge tokens) (r : Recovery) (unit i l j last : Nat) (x : Item) : Prop extends
    StatementRead G r unit i l j last x where
  nonempty : x.isEmpty = false

theorem BodyRead.isBody {last : Nat} {x : Item} (h : BodyRead G r unit i l j last x) : x.IsBody :=
  ⟨h.plain, h.nonempty⟩

theorem MoveItems.body (ih : MoveItems G r unit n) (i l : Nat) :
    Moves tokens 0 (Short tokens n i 17) i l (Parser.bodyStatement r unit n true) fun j last x =>
      i < j ∧ BodyRead G r unit i l j last x :=
  (ih.bodyStatement i l true).mono id fun _ _ _ _ h => ⟨h.1, h.2.1, h.2.2 rfl⟩

/-- A statement that is a keyword, an expression in parentheses and a body. -/
theorem headed_moves (ih : MoveItems G r unit n) (ht : tokens[i]? = some t)
    {make : Expr → Item → Span → Item}
    (hmake : ∀ e body span m l₁ j last, G.fits i j span → ParenthesisedFrom G e (i + 1) m →
      Issued l l₁ e.ids → BodyRead G r unit m l₁ j last body →
      StatementRead G r unit i l j last (make e body span)) :
    Moves tokens 0 (Short tokens (n + 1) i 16) (i + 1) l (do
      let e ← parenthesised n
      let body ← bodyStatement r unit n true
      return make e body (← spanFrom t.span))
      (StatementRead G r unit i l) := by
  refine ((parenthesised_moves G n (i + 1) l).within (by omega)).bind ?_
  rintro m l₁ e - ⟨hlt, he, hids⟩
  refine ((ih.body m l₁).within (by omega)).bind ?_
  rintro j last body - ⟨hlt', hbody⟩
  refine .spanFrom (G.token ht) (by omega) fun span hspan => .pure ?_
  exact hmake e body span m l₁ j last hspan he hids hbody

/-- The condition of an `if` and its branches, of which a second one may be missing. -/
theorem ifStatement_moves (ih : MoveItems G r unit n) (ht : tokens[i]? = some t)
    (hk : t.kind = .keyword .if) :
    Moves tokens 0 (Short tokens (n + 1) i 16) (i + 1) l (do
      let c ← parenthesised n
      let thenItem ← bodyStatement r unit n true
      if ← accept (.keyword .else) then
        let elseItem ← bodyStatement r unit n false
        return .ifElse c thenItem elseItem (← spanFrom t.span)
      else
        return .ifThen c thenItem (← spanFrom t.span))
      (StatementRead G r unit i l) := by
  refine ((parenthesised_moves G n (i + 1) l).within (by omega)).bind ?_
  rintro m l₁ c - ⟨hlt, hc, hids⟩
  refine ((ih.body m l₁).within (by omega)).bind ?_
  rintro k l₂ t' - ⟨hlt', hthen⟩
  refine .accept rfl (fun helse => ?_) fun hnone => ?_
  · refine ((ih.bodyStatement (k + 1) l₂ false).within (by omega)).bind ?_
    rintro j last e - ⟨hlt'', he, -⟩
    refine .spanFrom (G.token ht) (by omega) fun span hspan => .pure ?_
    -- The first branch would have taken the `else` if it could have.
    have hclosed : t'.isOpen = false := Bool.eq_false_iff.2 fun hopen => hthen.settled hopen helse
    refine ⟨fun hstop => ?_, he.settled, rfl, fun _ => rfl⟩
    have hthenTaken := hthen.taken hstop
    have helseTaken := he.taken hstop
    exact ⟨⟨hspan, m, k, ⟨t, ht, hk⟩, hc, ⟨hthen.isBody, hclosed, hthenTaken.read⟩, helse, he.plain,
      helseTaken.read⟩, hids.append (hthenTaken.ids.append helseTaken.ids),
      hthenTaken.ofUnit.append helseTaken.ofUnit⟩
  · refine .spanFrom (G.token ht) (by omega) fun span hspan => .pure ?_
    refine ⟨fun hstop => ?_, fun _ => hnone, rfl, fun _ => rfl⟩
    have hthenTaken := hthen.taken hstop
    exact ⟨⟨hspan, m, ⟨t, ht, hk⟩, hc, hthen.isBody, hthenTaken.read⟩, hids.append hthenTaken.ids,
      hthenTaken.ofUnit⟩

theorem forStatement_moves (ih : MoveItems G r unit n) (ht : tokens[i]? = some t)
    (hk : t.kind = .keyword .for) :
    Moves tokens 0 (Short tokens (n + 1) i 16) (i + 1) l (do
      let (init, condition, increment) ← forHead n t.span
      let body ← bodyStatement r unit n true
      return forLoop init condition increment body (← spanFrom t.span))
      (StatementRead G r unit i l) := by
  refine ((forHead_moves G unit n (i + 1) l t.span).within (by omega)).bind ?_
  rintro m l₁ ⟨init, c, increment⟩ - ⟨hlt, hhead, hids, hunit⟩
  have hhead := hhead i rfl (G.token ht)
  refine ((ih.body m l₁).within (by omega)).bind ?_
  rintro j last body - ⟨hlt', hbody⟩
  refine .spanFrom (G.token ht) (by omega) fun span hspan => .pure ⟨fun hstop => ?_, ?_, ?_, ?_⟩
  · have htaken := hbody.taken hstop
    refine ⟨forLoop_readFrom hspan ⟨t, ht, hk⟩ hhead hbody.isBody htaken.read,
      (hids.append htaken.ids).perm (ids_forLoop ..), ?_⟩
    rw [declarations_forLoop]
    exact hunit.append htaken.ofUnit
  · cases init with
    | none => exact hbody.settled
    | some x => exact nofun
  · cases init <;> rfl
  · intro _
    cases init <;> rfl

theorem statement_moves (ih : MoveItems G r unit n) (i l : Nat) :
    Moves tokens 1 (Short tokens (n + 1) i 16) i l (statement r unit (n + 1))
      (StatementRead G r unit i l) := by
  rw [statement]
  refine .peek fun t ht => ?_
  split
  · next hk => exact (assertion_moves G r unit n ht hk).within (by omega)
  · next hk =>
      refine .advance ht (by rw [hk]; rfl) (((ih.blockItems (i + 1) l).within (by omega)).bind ?_)
      rintro j last items - ⟨hlt, hitems⟩
      refine .spanFrom (G.token ht) (by omega) fun span hspan => .pure ?_
      refine ⟨fun hstop => ?_, nofun, rfl, fun _ => rfl⟩
      obtain ⟨m, rfl, htaken, hclose⟩ := hitems hstop
      exact ⟨⟨hspan, .inl ⟨m, rfl, ⟨t, ht, hk⟩, htaken.read, hclose⟩⟩, htaken.ids, htaken.ofUnit⟩
  · next hk => exact .advance ht (by rw [hk]; rfl) (forStatement_moves ih ht hk)
  · next hk => exact .advance ht (by rw [hk]; rfl) (ifStatement_moves ih ht hk)
  · next hk => exact (returnStatement_moves G r unit n ht hk).within (by omega)
  · next hk =>
      refine .advance ht (by rw [hk]; rfl)
        (headed_moves ih ht fun c body span m l₁ j last hspan hc hids hbody => ?_)
      refine ⟨fun hstop => ?_, hbody.settled, rfl, fun _ => rfl⟩
      have htaken := hbody.taken hstop
      exact ⟨⟨hspan, m, .inl ⟨rfl, ⟨t, ht, hk⟩, hc⟩, hbody.isBody, htaken.read⟩,
        hids.append (htaken.ids.append .nil), htaken.ofUnit⟩
  · next hk =>
      refine .advance ht (by rw [hk]; rfl)
        (headed_moves ih ht fun n body span m l₁ j last hspan hn hids hbody => ?_)
      refine ⟨fun hstop => ?_, hbody.settled, rfl, fun _ => rfl⟩
      have htaken := hbody.taken hstop
      exact ⟨⟨hspan, m, ⟨t, ht, hk⟩, hn, hbody.isBody, htaken.read⟩, hids.append htaken.ids, htaken.ofUnit⟩
  · next hk =>
      exact keywordStatement_moves ht (by rw [hk]; rfl) fun span hspan hsemicolon =>
        .simple ⟨⟨hspan, rfl, ⟨t, ht, hk⟩, hsemicolon⟩, .nil, .nil⟩ rfl rfl rfl
  · next hk =>
      exact keywordStatement_moves ht (by rw [hk]; rfl) fun span hspan hsemicolon =>
        .simple ⟨⟨hspan, rfl, ⟨t, ht, hk⟩, hsemicolon⟩, .nil, .nil⟩ rfl rfl rfl
  · refine (expressionStatement_moves G n i l true).mono (by omega) ?_
    rintro j last x - ⟨e, span, m, rfl, hspan, hj, hsemicolon, hids, he⟩
    exact .expression ⟨hspan, m, hj, hsemicolon, he.imp_left fun h => ⟨h.1 rfl, h.2⟩⟩ hids

theorem blockItems_moves (ih : MoveItems G r unit n) (i l : Nat) :
    Moves tokens 0 (Short tokens (n + 1) i 19) i l (blockItems r unit (n + 1)) fun j last xs =>
      i < j ∧ (r = .stop → ∃ m, j = m + 1 ∧ ItemsTaken G unit i l m last xs
        ∧ ShownAt tokens m (.fixed (.symbol .rightBrace))) := by
  rw [blockItems]
  refine .check fun closed _ => .atEnd fun ended hended => ?_
  split
  · refine .expect rfl fun close hclose hkind => .pure ⟨by omega, fun _ => ?_⟩
    exact ⟨i, rfl, .nil, close, hclose, hkind⟩
  · next hmore =>
      have hi : i < tokens.length → i + 1 < tokens.length := fun hi => by
        have : i + 1 ≠ tokens.length := fun h => hmore (by rw [hended.2 h, Bool.or_true])
        omega
      refine .inside fun hinside => ((ih.declaration i l (hi hinside)).within (by omega)).bind ?_
      rintro m l₁ first - ⟨hlt, hfirst⟩
      refine ((ih.blockItems m l₁).within (by omega)).bind ?_
      rintro j last items - ⟨hlt', hitems⟩
      refine .pure ⟨by omega, fun hstop => ?_⟩
      obtain ⟨x, rfl, hx⟩ := hfirst hstop
      obtain ⟨k, rfl, htaken, hclose⟩ := hitems hstop
      exact ⟨k, rfl, .cons hx htaken, hclose⟩

/-- The id of a function comes after those in its body. -/
theorem function_moves (ih : MoveItems G r unit n) (o i l : Nat) (kind : FunctionKind) (start : Span)
    (hstart : G.fits o (o + 1) start) (ho : o ≤ i) :
    Moves tokens 0 (Short tokens (n + 1) i 1) i l (function r unit (n + 1) kind start) fun j last d =>
      i < j ∧ d.kind = kind ∧ (r = .stop → FunctionTaken G unit o i l j last d) := by
  rw [function]
  refine .expect rfl fun name hname hkind => .expect rfl fun open_ hopen hopenKind => ?_
  refine .check fun empty _ => ?_
  refine .choice (Q := fun m last ps =>
      last = l ∧ paramsReadFrom tokens ps (i + 2) m ∧ ps.length ≤ maxArguments)
    (fun _ => .pure ⟨rfl, rfl, Nat.zero_le _⟩)
    (fun _ => (parameters_moves n (i + 2) l 0).mono (by omega) fun _ _ _ _ h =>
      ⟨h.1, h.2.1, by simpa using h.2.2.2⟩) ?_
  rintro m _ params hle ⟨rfl, hparams, hcount⟩
  refine .expect rfl fun close hclose hcloseKind => .expect rfl fun brace hbrace hbraceKind => ?_
  refine ((ih.blockItems (m + 2) _).within (by omega)).bind ?_
  rintro j last body - ⟨hlt, hbody⟩
  refine .freshId (.spanFrom hstart (by omega) fun span hspan => .pure ?_)
  refine ⟨by omega, rfl, fun hstop => ?_⟩
  obtain ⟨k, rfl, htaken, hend⟩ := hbody hstop
  exact ⟨⟨hspan, hcount, m, k, rfl, ⟨name, hname, hkind, rfl⟩, ⟨open_, hopen, hopenKind⟩, hparams,
    ⟨close, hclose, hcloseKind⟩, ⟨brace, hbrace, hbraceKind⟩, htaken.read, hend⟩,
    (htaken.ids.append .one).perm List.perm_append_comm, List.forall_mem_cons.2 ⟨rfl, htaken.ofUnit⟩⟩

theorem classDeclaration_moves (ih : MoveItems G r unit n) (i l : Nat) (t : Token)
    (ht : tokens[i]? = some t) (hk : t.kind = .keyword .class) :
    Moves tokens 1 (Short tokens (n + 1) i 1) i l (classDeclaration r unit (n + 1)) fun j last x =>
      r = .stop → Taken G unit i l j last x := by
  rw [classDeclaration]
  refine .advance ht (by rw [hk]; rfl) (.expect rfl fun name hname hkind => ?_)
  refine (superclass_moves (i + 2) l).bind fun m l₁ parent hle hparent => ?_
  refine .expect rfl fun brace hbrace hbraceKind => ?_
  refine ((ih.methods (m + 1) l₁).within (by omega)).bind fun k last members hle' hmembers => ?_
  refine .expect rfl fun close hclose hcloseKind => ?_
  refine .spanFrom (G.token ht) (by omega) fun span hspan => .pure fun hstop => ?_
  exact ⟨⟨hspan, m, k, rfl, ⟨t, ht, hk⟩, ⟨name, hname, hkind, rfl⟩, hparent.1,
    ⟨brace, hbrace, hbraceKind⟩, (hmembers hstop).read, close, hclose, hcloseKind⟩,
    hparent.2.append (hmembers hstop).ids, (hmembers hstop).ofUnit⟩

theorem methods_moves (ih : MoveItems G r unit n) (i l : Nat) :
    Moves tokens 0 (Short tokens (n + 1) i 2) i l (methods r unit (n + 1)) fun j last ds =>
      r = .stop → MethodsTaken G unit i l j last ds := by
  rw [methods]
  refine .check fun closed _ => .atEnd fun ended _ => ?_
  split
  · exact .pure fun _ => ⟨rfl, .nil, .nil⟩
  · refine .peek fun t ht => ?_
    refine ((ih.function i i l .method t.span (G.token ht) (Nat.le_refl i)).within (by omega)).bind ?_
    rintro m l₁ d - ⟨hlt, hkind, hd⟩
    refine ((ih.methods m l₁).within (by omega)).bind fun j last ds hle hds => .pure fun hstop => ?_
    exact ⟨⟨m, ⟨hkind, (hd hstop).read⟩, (hds hstop).read⟩, (hd hstop).ids.append (hds hstop).ids,
      (hd hstop).ofUnit.append (hds hstop).ofUnit⟩

end

theorem moveItems (G : Gauge tokens) (r : Recovery) (unit n : Nat) : MoveItems G r unit n := by
  induction n with
  | zero =>
    constructor
    all_goals
      intros
      exact .spent fun h => by omega
  | succ n ih =>
    refine ⟨?_, item_moves ih, statement_moves ih, ?_, blockItems_moves ih, function_moves ih,
      classDeclaration_moves ih, methods_moves ih⟩
    · intro i l hi
      rw [declaration]
      exact recovering_moves hi ((ih.item i l).within (by omega))
    · intro i l afterParen
      rw [bodyStatement]
      refine checkBody_moves fun hcheck => (ih.statement i l).moves.mono (by omega) ?_
      exact fun _ _ _ _ h => ⟨h.1, h.2, fun hparen => h.2.present (hcheck hparen)⟩

/-- A whole program is read up to the token that closes the list. -/
theorem program_moves (G : Gauge tokens) (r : Recovery) (unit n i l : Nat) :
    Moves tokens 0 (Short tokens n i 19) i l (program r unit n) fun j last xs =>
      j + 1 = tokens.length ∧ (r = .stop → ItemsTaken G unit i l j last xs) := by
  induction n generalizing i l with
  | zero => exact .spent fun h => by omega
  | succ n ih =>
    rw [program]
    refine .atEnd fun ended hended => ?_
    cases ended with
    | true => exact .pure ⟨hended.1 rfl, fun _ => .nil⟩
    | false =>
      refine .inside fun hinside => ?_
      have hi : i + 1 ≠ tokens.length := fun h => nomatch hended.2 h
      refine (((moveItems G r unit n).declaration i l (by omega)).within (by omega)).bind ?_
      rintro m l₁ first - ⟨hlt, hfirst⟩
      refine ((ih m l₁).within (by omega)).bind ?_
      rintro j last items - ⟨hend, hitems⟩
      refine .pure ⟨hend, fun hstop => ?_⟩
      obtain ⟨x, rfl, hx⟩ := hfirst hstop
      exact .cons hx (hitems hstop)

end Parser

end Eleu
