import Eleu.Proofs.Tree.Course

/-! # Canonical trees are read back

    The tokens of a canonical tree, followed by a token that cannot go on with it, are parsed into
    that tree (`Parser.accepted`), up to ids and spans. The proof goes through the tree, and for each
    tree up the levels of the grammar: `Operators l e` says that the parser of level `l`, started
    on the tokens of `e`, comes to ask for further operands with `e` at hand, and `Chained e` says
    the same of calls and field accesses. That is what a tree that groups to the left asks of its
    left operand.

    The other way round, whatever the expression parser accepts is canonical, and the tokens that it was
    read from show its glyphs (`Expr.ReadFrom.shown`). `expression_exact` puts the two together. -/

namespace Eleu

variable {span : Span} {ts rest : List Token} {k : TokenKind} {c : Cursor}

/-! ## Trees without ids and spans -/

namespace Expr

mutual

/-- The expression without ids and spans. -/
def bare : Expr → Expr
  | .literal value _ => .literal value .empty
  | .list elements _ => .list (bareAll elements) .empty
  | .name ident _ => .name ⟨ident.name, 0⟩ .empty
  | .assign target value _ => .assign ⟨target.name, 0⟩ value.bare .empty
  | .unary op operand _ => .unary op operand.bare .empty
  | .binary left op right _ => .binary left.bare op right.bare .empty
  | .logical left op right _ => .logical left.bare op right.bare .empty
  | .group inner _ => .group inner.bare .empty
  | .call callee args _ => .call callee.bare (bareAll args) .empty
  | .getField object field _ => .getField object.bare field .empty
  | .setField object field value _ => .setField object.bare field value.bare .empty
  | .this ident _ => .this ⟨ident.name, 0⟩ .empty
  | .super ident method _ => .super ⟨ident.name, 0⟩ method .empty

/-- The expressions without ids and spans. -/
def bareAll : List Expr → List Expr
  | [] => []
  | e :: es => e.bare :: bareAll es

end

/-- A kind of token that ends an expression in brackets. -/
def ClosesBracket (k : TokenKind) : Prop := k = .symbol .rightParen ∨ k = .symbol .rightBracket

/-- No expression starts with a closing bracket. -/
theorem exists_head_glyphs : ∀ e : Expr, ∃ g gs, e.glyphs = g :: gs ∧ ¬ ClosesBracket g.kind
  | .literal (.number _) _ | .literal (.string _) _ | .literal (.bool true) _
  | .literal (.bool false) _ | .literal .nil _ | .list _ _ | .name _ _ | .assign _ _ _ | .group _ _
  | .this _ _ | .super _ _ _ => ⟨_, _, rfl, by rintro (h | h) <;> exact nomatch h⟩
  | .unary op _ _ => ⟨_, _, rfl, by cases op <;> rintro (h | h) <;> exact nomatch h⟩
  | .binary left _ _ _ | .logical left _ _ _ | .call left _ _ | .getField left _ _ => by
    obtain ⟨g, gs, hg, hends⟩ := left.exists_head_glyphs
    exact ⟨g, _, by rw [glyphs, hg]; rfl, hends⟩
  | .setField object _ _ _ => by
    obtain ⟨g, gs, hg, hends⟩ := object.exists_head_glyphs
    exact ⟨g, _, by rw [glyphs, hg]; rfl, hends⟩

/-- The tokens of an expression do not start with a closing bracket. -/
theorem Renders.exists_head {e : Expr} (h : e.Renders ts) :
    ∃ u us, ts = u :: us ∧ ¬ ClosesBracket u.kind := by
  obtain ⟨g, gs, hg, hends⟩ := e.exists_head_glyphs
  have h : List.Forall₂ Token.Shows ts (g :: gs) := hg ▸ h
  cases h with
  | cons hu hus => exact ⟨_, _, rfl, by rw [hu.kind_eq]; exact hends⟩

theorem Renders.length_pos {e : Expr} (h : e.Renders ts) : 0 < ts.length := by
  obtain ⟨u, us, rfl, -⟩ := h.exists_head
  exact Nat.succ_pos _

end Expr

/-- Tokens that show two sequences of glyphs one after the other. -/
theorem exists_append_of_shows {gs hs : List Glyph} (h : List.Forall₂ Token.Shows ts (gs ++ hs)) :
    ∃ us vs, ts = us ++ vs ∧ List.Forall₂ Token.Shows us gs ∧ List.Forall₂ Token.Shows vs hs :=
  ⟨ts.take gs.length, ts.drop gs.length, (List.take_append_drop _ _).symm,
    List.forall₂_take_append ts gs hs h, List.forall₂_drop_append ts gs hs h⟩

/-- The same with a glyph in between. -/
theorem exists_between_of_shows {gs hs : List Glyph} {g : Glyph}
    (h : List.Forall₂ Token.Shows ts (gs ++ g :: hs)) :
    ∃ us t vs, ts = us ++ t :: vs ∧ List.Forall₂ Token.Shows us gs ∧ t.Shows g
      ∧ List.Forall₂ Token.Shows vs hs := by
  obtain ⟨us, vs, rfl, hus, hvs⟩ := exists_append_of_shows h
  cases hvs with
  | cons ht hvs => exact ⟨us, _, _, rfl, hus, ht, hvs⟩

/-! ## What does not go on with an expression -/

/-- A token of this kind does not go on with an expression that binds at least by `least`. -/
structure TokenKind.Stops (least : Nat) (k : TokenKind) : Prop where
  joiner : ∀ l : Level, least ≤ l.tightness → l.joiner? k = none
  call : k ≠ .symbol .leftParen
  field : k ≠ .symbol .dot
  assign : least = 0 → k ≠ .symbol .equal

namespace TokenKind.Stops

theorem mono {least least' : Nat} (h : k.Stops least) (hle : least ≤ least') : k.Stops least' :=
  ⟨fun l hl => h.joiner l (Nat.le_trans hle hl), h.call, h.field, fun h0 => h.assign (by omega)⟩

/-- What is no operator, call, field access or assignment stops every expression. -/
theorem of_none (hj : ∀ l : Level, l.joiner? k = none) (hcall : k ≠ .symbol .leftParen)
    (hfield : k ≠ .symbol .dot) (hassign : k ≠ .symbol .equal) : Stops 0 k :=
  ⟨fun l _ => hj l, hcall, hfield, fun _ => hassign⟩

theorem semicolon : Stops 0 (.symbol .semicolon) :=
  of_none (fun l => by cases l <;> rfl) (by decide) (by decide) (by decide)

theorem comma : Stops 0 (.symbol .comma) :=
  of_none (fun l => by cases l <;> rfl) (by decide) (by decide) (by decide)

theorem rightParen : Stops 0 (.symbol .rightParen) :=
  of_none (fun l => by cases l <;> rfl) (by decide) (by decide) (by decide)

theorem rightBracket : Stops 0 (.symbol .rightBracket) :=
  of_none (fun l => by cases l <;> rfl) (by decide) (by decide) (by decide)

theorem equal : Stops 1 (.symbol .equal) :=
  ⟨fun l _ => by cases l <;> rfl, by decide, by decide, by decide⟩

/-- An operator does not go on with what binds more tightly. -/
theorem ofJoiner (j : Joiner) : j.kind.Stops (j.level.tightness + 1) := by
  refine ⟨fun l hl => ?_, ?_, ?_, fun h => absurd h (Nat.succ_ne_zero _)⟩
  · cases h : l.joiner? j.kind with
    | none => rfl
    | some i =>
      obtain ⟨hkind, rfl⟩ := Level.eq_of_joiner? h
      obtain rfl := Joiner.eq_of_kind hkind
      exact absurd hl (Nat.not_succ_le_self _)
  · rcases j with op | op <;> cases op <;> decide
  · rcases j with op | op <;> cases op <;> decide

end TokenKind.Stops

/-! ## Parsers at a token -/

namespace Parser

variable {α β : Type} {c : Cursor} {t : Token} {rest : List Token}

theorem current_of_rest (h : c.rest = t :: rest) : c.current = t := by
  rw [Cursor.current, h]
  rfl

theorem rest_next (h : c.rest = t :: rest) (hk : t.kind.closes = false) : c.next.rest = rest := by
  rw [Cursor.next, Cursor.atEnd, current_of_rest h, hk, h]
  rfl

theorem peek_bind (h : c.rest = t :: rest) (f : Token → Parser β) : (peek >>= f) c = f t c :=
  congrArg (f · c) (current_of_rest h)

theorem advance_bind (h : c.rest = t :: rest) (f : Token → Parser β) :
    (advance >>= f) c = f t c.next :=
  congrArg (f · c.next) (current_of_rest h)

theorem check_bind (h : c.rest = t :: rest) (k : TokenKind) (f : Bool → Parser β) :
    (check k >>= f) c = f (t.kind == k) c :=
  congrArg (fun u : Token => f (u.kind == k) c) (current_of_rest h)

theorem accept_bind (h : c.rest = t :: rest) (hk : t.kind = k) (hc : k.closes = false)
    (f : Bool → Parser β) : (accept k >>= f) c = f true c.next := by
  have hyes : (c.current.kind == k && !c.atEnd) = true := by
    rw [Cursor.atEnd, current_of_rest h, hk, hc]
    simp
  rw [Outcome.bind_apply, accept_apply, if_pos hyes]

theorem accept_bind_of_ne (h : c.rest = t :: rest) (hk : t.kind ≠ k) (f : Bool → Parser β) :
    (accept k >>= f) c = f false c := by
  have hno : ¬ (c.current.kind == k && !c.atEnd) = true := by
    rw [current_of_rest h]
    simp [hk]
  rw [Outcome.bind_apply, accept_apply, if_neg hno]

theorem expect_bind (h : c.rest = t :: rest) (hk : t.kind = k) (cause : SyntaxError)
    (f : Token → Parser β) : (expect k cause >>= f) c = f t c.next := by
  have hyes : (c.current.kind == k) = true := by
    rw [current_of_rest h, hk]
    exact beq_self_eq_true k
  rw [Outcome.bind_apply, expect_apply, if_pos hyes, current_of_rest h]

end Parser

/-! ## Reading one tree back -/

/-- At the cursor, the parser gives the expression and stops right before the tokens `after`. -/
def Gives (p : Parser Expr) (c : Cursor) (e : Expr) (after : List Token) : Prop :=
  ∃ e' c', p c = .ok e' c' ∧ e'.bare = e.bare ∧ c'.rest = after

/-- At the cursor, the parser comes to do what `q` does, with the expression at hand and right before
    the tokens `after`. It has spent no more than `spent` of its `n` rounds. -/
def GoesOn (p : Parser Expr) (q : Nat → Expr → Parser Expr) (n spent : Nat) (c : Cursor) (e : Expr)
    (after : List Token) : Prop :=
  ∃ n' e' c', p c = q n' e' c' ∧ n ≤ n' + spent ∧ e'.bare = e.bare ∧ c'.rest = after

namespace Parser

/-- The tokens of the expression are read as a whole. -/
def Whole (e : Expr) : Prop :=
  ∀ ⦃n c ts t rest⦄, e.Renders ts → c.rest = ts ++ t :: rest → t.kind.Stops 0 →
    16 * ts.length ≤ n → Gives (expression n) c e (t :: rest)

/-- The parser of level `l` reads the tokens of the expression and asks for further operands. -/
def Operators (l : Level) (e : Expr) : Prop :=
  ∀ ⦃n c ts t rest⦄, e.Renders ts → c.rest = ts ++ t :: rest → t.kind.Stops (l.tightness + 1) →
    16 * ts.length < n + 2 * l.tightness →
    GoesOn (operators n l) (moreOperands · l) n ts.length c e (t :: rest)

/-- The tokens of the expression are read as one operand of level `l`. -/
def Operand (l : Level) (e : Expr) : Prop :=
  ∀ ⦃n c ts t rest⦄, e.Renders ts → c.rest = ts ++ t :: rest → t.kind.Stops (l.tightness + 1) →
    16 * ts.length ≤ n + 2 * l.tightness → Gives (operand n l) c e (t :: rest)

/-- The tokens of the expression are read as one with its prefix operators. -/
def Prefixed (e : Expr) : Prop :=
  ∀ ⦃n c ts t rest⦄, e.Renders ts → c.rest = ts ++ t :: rest → t.kind.Stops 7 →
    16 * ts.length ≤ n + 13 → Gives (unary n) c e (t :: rest)

/-- The tokens of the expression are read, and calls and field accesses are looked for. -/
def Chained (e : Expr) : Prop :=
  ∀ ⦃n c ts t rest⦄, e.Renders ts → c.rest = ts ++ t :: rest → 16 * ts.length ≤ n + 13 →
    GoesOn (unary n) chain n ts.length c e (t :: rest)

/-- The tokens of the expression are read as one that stands on its own. -/
def Primary (e : Expr) : Prop :=
  ∀ ⦃n c ts rest⦄, e.Renders ts → c.rest = ts ++ rest → 16 * ts.length ≤ n + 14 →
    (∀ t ∈ ts.head?, UnaryOp.ofKind? t.kind = none) ∧ Gives (primary n) c e rest

variable {e left right : Expr} {l k : Level}

/-! ### From one level of the grammar to the next -/

/-- A token that binds less tightly ends the operands. -/
theorem moreOperands_stop {n : Nat} {t : Token} (hn : 0 < n) (hr : c.rest = t :: rest)
    (hs : t.kind.Stops l.tightness) : moreOperands n l e c = .ok e c := by
  obtain ⟨m, rfl⟩ := Nat.exists_eq_succ_of_ne_zero (Nat.ne_of_gt hn)
  rw [moreOperands, peek_bind hr, hs.joiner l (Nat.le_refl _)]
  rfl

/-- A token that continues no chain ends it. -/
theorem chain_stop {n : Nat} {t : Token} (hn : 0 < n) (hr : c.rest = t :: rest)
    (hs : t.kind.Stops 7) : chain n e c = .ok e c := by
  obtain ⟨m, rfl⟩ := Nat.exists_eq_succ_of_ne_zero (Nat.ne_of_gt hn)
  have hcall := hs.call
  have hfield := hs.field
  rw [chain, peek_bind hr]
  generalize t.kind = k at hcall hfield
  cases k with
  | symbol s => cases s <;> first | rfl | exact absurd rfl hcall | exact absurd rfl hfield
  | keyword | name | string | number | invalid | endOfFile => rfl

theorem Primary.chained (h : Primary e) : Chained e := by
  intro n c ts t rest hts hr hn
  have hpos := hts.length_pos
  obtain ⟨m, rfl⟩ := Nat.exists_eq_succ_of_ne_zero (n := n) (by omega)
  obtain ⟨hhead, e', c', hp, he, hc⟩ := h (n := m) hts hr (by omega)
  obtain ⟨u, us, rfl⟩ := List.exists_cons_of_length_pos hpos
  refine ⟨m, e', c', ?_, by omega, he, hc⟩
  rw [unary, peek_bind hr, hhead u rfl]
  dsimp only
  rw [Outcome.bind_apply, hp]

theorem Chained.prefixed (h : Chained e) : Prefixed e := by
  intro n c ts t rest hts hr hs hn
  have hpos := hts.length_pos
  obtain ⟨n', e', c', hgo, hspent, he, hc⟩ := h hts hr hn
  exact ⟨e', c', by rw [hgo, chain_stop (by omega) hc hs], he, hc⟩

theorem Prefixed.operand (h : Prefixed e) : Operand .factor e := by
  intro n c ts t rest hts hr hs hn
  have hpos := hts.length_pos
  have hn : 16 * ts.length ≤ n + 12 := hn
  obtain ⟨m, rfl⟩ := Nat.exists_eq_succ_of_ne_zero (n := n) (by omega)
  obtain ⟨e', c', hp, he, hc⟩ := h (n := m) hts hr hs (by omega)
  exact ⟨e', c', by rw [Parser.operand]; exact hp, he, hc⟩

theorem Operators.operand (h : Operators k e) (hk : l.tighter? = some k) : Operand l e := by
  intro n c ts t rest hts hr hs hn
  have hpos := hts.length_pos
  have htight := Level.tightness_tighter hk
  have hle : k.tightness ≤ 6 := by cases k <;> decide
  obtain ⟨m, rfl⟩ := Nat.exists_eq_succ_of_ne_zero (n := n) (by omega)
  obtain ⟨n', e', c', hgo, hspent, he, hc⟩ := h (n := m) hts hr (hs.mono (by omega)) (by omega)
  refine ⟨e', c', ?_, he, hc⟩
  rw [Parser.operand, hk]
  dsimp only
  exact hgo.trans (moreOperands_stop (by omega) hc (by rw [htight]; exact hs))

theorem Operand.operators (h : Operand l e) : Operators l e := by
  intro n c ts t rest hts hr hs hn
  have hpos := hts.length_pos
  have hle : l.tightness ≤ 6 := by cases l <;> decide
  obtain ⟨m, rfl⟩ := Nat.exists_eq_succ_of_ne_zero (n := n) (by omega)
  obtain ⟨e', c', hp, he, hc⟩ := h (n := m) hts hr hs (by omega)
  refine ⟨m, e', c', ?_, by omega, he, hc⟩
  rw [Parser.operators, Outcome.bind_apply, hp]

theorem Operators.whole (h : Operators .or e) : Whole e := by
  intro n c ts t rest hts hr hs hn
  have hpos := hts.length_pos
  obtain ⟨m, rfl⟩ := Nat.exists_eq_succ_of_ne_zero (n := n) (by omega)
  obtain ⟨n', e', c', hgo, hspent, he, hc⟩ :=
    h (n := m) hts hr (hs.mono (Nat.zero_le _)) (by show 16 * ts.length < m + 2; omega)
  refine ⟨e', c', ?_, he, hc⟩
  rw [expression, Outcome.bind_apply,
    hgo.trans (moreOperands_stop (by omega) hc (hs.mono (Nat.zero_le _)))]
  dsimp only
  rw [accept_bind_of_ne hc (hs.assign rfl)]
  rfl

/-! ### Operators -/

/-- Two operands and the operator between them. -/
theorem operators_join {j : Joiner} {result : Expr} (hl : Operators j.level left)
    (hr : Operand j.level right)
    (hglyphs : result.glyphs = left.glyphs ++ .fixed j.kind :: right.glyphs)
    (hbare : ∀ left' right', left'.bare = left.bare → right'.bare = right.bare →
      (j.join left' right').bare = result.bare) : Operators j.level result := by
  intro n c ts t rest hts hrest hs hn
  have hle : j.level.tightness ≤ 6 := by cases j.level <;> decide
  have hts : List.Forall₂ Token.Shows ts (left.glyphs ++ .fixed j.kind :: right.glyphs) :=
    hglyphs ▸ hts
  obtain ⟨us, op, vs, rfl, hus, hop, hvs⟩ := exists_between_of_shows hts
  have hop : op.kind = j.kind := hop
  have hpos : 0 < us.length := Expr.Renders.length_pos hus
  rw [List.append_assoc, List.cons_append] at hrest
  simp only [List.length_append, List.length_cons] at hn ⊢
  obtain ⟨n₁, left', c₁, hgo, hspent, hleft, hc₁⟩ :=
    hl (n := n) hus hrest (by rw [hop]; exact .ofJoiner j) (by omega)
  obtain ⟨m, rfl⟩ := Nat.exists_eq_succ_of_ne_zero (n := n₁) (by omega)
  have hnext := rest_next hc₁ (by rw [hop]; exact j.closes_kind)
  obtain ⟨right', c₂, hp, hright, hc₂⟩ := hr (n := m) hvs hnext hs (by omega)
  refine ⟨m, j.join left' right', c₂, ?_, by omega, hbare left' right' hleft hright, hc₂⟩
  rw [hgo]
  dsimp only
  rw [moreOperands, peek_bind hc₁, hop, j.joiner?_kind]
  dsimp only
  rw [advance_bind hc₁, Outcome.bind_apply, hp]

theorem prefixed_unary {op : UnaryOp} (h : Prefixed e) : Prefixed (.unary op e span) := by
  intro n c ts t rest hts hrest hs hn
  cases hts with
  | @cons sign _ us _ hsign hus =>
    have hsign : sign.kind = op.kind := hsign
    rw [List.length_cons] at hn
    obtain ⟨m, rfl⟩ := Nat.exists_eq_succ_of_ne_zero (n := n) (by omega)
    have hnext : c.next.rest = us ++ t :: rest :=
      rest_next hrest (by rw [hsign]; cases op <;> rfl)
    obtain ⟨e', c', hp, he, hc⟩ := h (n := m) hus hnext hs (by omega)
    refine ⟨.unary op e' (sign.span.union e'.span), c', ?_, by simp only [Expr.bare, he], hc⟩
    rw [unary, peek_bind hrest, hsign, show UnaryOp.ofKind? op.kind = some op by cases op <;> rfl]
    dsimp only
    rw [advance_bind hrest, Outcome.bind_apply, hp]
    rfl

/-! ### Lists of expressions -/

/-- At the cursor, the parser gives the expressions and stops right before the tokens `after`. -/
def GivesAll (p : Parser (List Expr)) (c : Cursor) (es : List Expr) (after : List Token) : Prop :=
  ∃ es' c', p c = .ok es' c' ∧ Expr.bareAll es' = Expr.bareAll es ∧ c'.rest = after

/-- A parser that reads expressions as long as commas follow reads them all back. -/
theorem listed_gives {p : Nat → Nat → Parser (List Expr)} {b : Nat}
    (hp : ∀ n k, k < b → p (n + 1) k = listed n (p n (k + 1))) {es : List Expr}
    (hes : ∀ e ∈ es, Whole e) (hne : es ≠ []) {n k : Nat} {t : Token} (hcount : k + es.length ≤ b)
    (hts : List.Forall₂ Token.Shows ts (Expr.separated es)) (hrest : c.rest = ts ++ t :: rest)
    (hs : t.kind.Stops 0) (hcomma : t.kind ≠ .symbol .comma) (hn : 16 * ts.length < n) :
    GivesAll (p n k) c es (t :: rest) := by
  induction es generalizing n c ts k with
  | nil => exact absurd rfl hne
  | cons e es ih =>
    obtain ⟨m, rfl⟩ := Nat.exists_eq_succ_of_ne_zero (n := n) (by omega)
    obtain ⟨us, vs, rfl, hus, hvs⟩ := exists_append_of_shows hts
    rw [List.append_assoc] at hrest
    rw [List.length_append] at hn
    rw [List.length_cons] at hcount
    rw [hp m k (by omega)]
    cases es with
    | nil =>
      cases hvs
      obtain ⟨e', c', he', hbare, hc⟩ := hes e (.head _) (n := m) hus hrest hs (by omega)
      refine ⟨[e'], c', ?_, by simp only [Expr.bareAll, hbare], hc⟩
      rw [listed, Outcome.bind_apply, he']
      dsimp only
      rw [accept_bind_of_ne hc hcomma]
      rfl
    | cons e₁ es =>
      cases hvs with
      | @cons comma _ vs _ hcm hvs =>
        have hcm : comma.kind = .symbol .comma := hcm
        obtain ⟨e', c', he', hbare, hc⟩ := hes e (.head _) (n := m) hus hrest
          (by rw [hcm]; exact .comma) (by omega)
        have hc : c'.rest = comma :: (vs ++ t :: rest) := hc
        rw [List.length_cons] at hn
        obtain ⟨es', c'', hes', hbares, hc''⟩ := ih (fun e he => hes e (.tail _ he))
          (List.cons_ne_nil _ _) (n := m) (k := k + 1) (by omega) hvs
          (rest_next hc (by rw [hcm]; rfl)) (by omega)
        refine ⟨e' :: es', c'', ?_, by simp only [Expr.bareAll, hbare, hbares], hc''⟩
        rw [listed, Outcome.bind_apply, he']
        dsimp only
        rw [accept_bind hc hcm rfl, if_pos rfl, Outcome.bind_apply, hes']
        rfl

/-- Expressions in brackets, which may be missing: they are asked for unless the closing bracket
    follows at once. -/
theorem bracketed_gives {q : Parser (List Expr)} {es : List Expr} {t : Token}
    (hts : List.Forall₂ Token.Shows ts (Expr.separated es)) (hrest : c.rest = ts ++ t :: rest)
    (ht : Expr.ClosesBracket t.kind) (hq : es ≠ [] → GivesAll q c es (t :: rest)) {β : Type}
    (f : List Expr → Parser β) :
    ∃ es' c', (do
        let empty ← check t.kind
        if empty = true then pure [] >>= f else q >>= f) c = f es' c'
      ∧ Expr.bareAll es' = Expr.bareAll es ∧ c'.rest = t :: rest := by
  cases es with
  | nil =>
    cases hts
    refine ⟨[], c, ?_, rfl, hrest⟩
    rw [check_bind hrest, if_pos (beq_self_eq_true _)]
    rfl
  | cons e es =>
    obtain ⟨us, vs, rfl, hus, -⟩ := exists_append_of_shows hts
    obtain ⟨u, us, rfl, hu⟩ := Expr.Renders.exists_head hus
    obtain ⟨es', c', hes', hbare, hc⟩ := hq (List.cons_ne_nil _ _)
    refine ⟨es', c', ?_, hbare, hc⟩
    have hne : ¬ (u.kind == t.kind) = true := fun h => hu (eq_of_beq h ▸ ht)
    rw [check_bind hrest, if_neg hne, Outcome.bind_apply, hes']

/-! ### Calls and field accesses -/

/-- A call of what comes before. -/
theorem chained_call {args : List Expr} (h : Chained e) (hargs : ∀ e ∈ args, Whole e)
    (hfew : args.length ≤ maxArguments) : Chained (.call e args span) := by
  intro n c ts t rest hts hrest hn
  obtain ⟨us, opens, ws, rfl, hus, hopens, hws⟩ := exists_between_of_shows hts
  obtain ⟨vs, closes, _, rfl, hvs, hcloses, hnil⟩ := exists_between_of_shows hws
  cases hnil
  have hopens : opens.kind = .symbol .leftParen := hopens
  have hcloses : closes.kind = .symbol .rightParen := hcloses
  simp only [List.append_assoc, List.cons_append, List.nil_append] at hrest
  simp only [List.length_append, List.length_cons, List.length_nil] at hn ⊢
  have hpos : 0 < us.length := Expr.Renders.length_pos hus
  obtain ⟨n₁, e', c₁, hgo, hspent, he, hc₁⟩ := h (n := n) hus hrest (by omega)
  obtain ⟨m, rfl⟩ := Nat.exists_eq_succ_of_ne_zero (n := n₁) (by omega)
  have hc₂ := rest_next hc₁ (by rw [hopens]; rfl)
  have hq : args ≠ [] → GivesAll (arguments m 0) c₁.next args (closes :: t :: rest) := fun hne =>
    listed_gives (fun _ _ => arguments_succ) hargs hne (by omega) hvs hc₂
      (by rw [hcloses]; exact .rightParen) (by rw [hcloses]; decide) (by omega)
  obtain ⟨args', c₃, hb, hbare, hc₃⟩ := bracketed_gives hvs hc₂ (.inl hcloses) hq fun args => do
    let _ ← expect (.symbol .rightParen) .closingParenExpected
    chain m (.call e' args (← spanFrom e'.span))
  rw [hcloses] at hb
  refine ⟨m, .call e' args' (e'.span.union c₃.next.previous.span), c₃.next, ?_, by omega,
    by simp only [Expr.bare, he, hbare], rest_next hc₃ (by rw [hcloses]; rfl)⟩
  rw [hgo, chain, peek_bind hc₁, hopens]
  dsimp only
  rw [advance_bind hc₁]
  refine hb.trans ?_
  rw [expect_bind hc₃ hcloses]
  rfl

theorem chained_getField {field : String} (h : Chained e) : Chained (.getField e field span) := by
  intro n c ts t rest hts hrest hn
  obtain ⟨us, dot, ws, rfl, hus, hdot, hws⟩ := exists_between_of_shows hts
  cases hws with
  | @cons name _ _ _ hname hnil =>
    cases hnil
    have hdot : dot.kind = .symbol .dot := hdot
    obtain ⟨hname, rfl⟩ : name.kind = .name ∧ name.lexeme = field := hname
    simp only [List.append_assoc, List.cons_append, List.nil_append] at hrest
    simp only [List.length_append, List.length_cons, List.length_nil] at hn ⊢
    have hpos : 0 < us.length := Expr.Renders.length_pos hus
    obtain ⟨n₁, e', c₁, hgo, hspent, he, hc₁⟩ := h (n := n) hus hrest (by omega)
    obtain ⟨m, rfl⟩ := Nat.exists_eq_succ_of_ne_zero (n := n₁) (by omega)
    have hc₂ := rest_next hc₁ (by rw [hdot]; rfl)
    refine ⟨m, .getField e' name.lexeme (e'.span.union c₁.next.next.previous.span), c₁.next.next, ?_,
      by omega, by simp only [Expr.bare, he], rest_next hc₂ (by rw [hname]; rfl)⟩
    rw [hgo, chain, peek_bind hc₁, hdot]
    dsimp only
    rw [advance_bind hc₁, expect_bind hc₂ hname]
    rfl

/-! ### What stands on its own -/

theorem primary_literal {value : Literal} (hvalue : value.Representable) :
    Primary (.literal value span) := by
  intro n c ts rest hts hrest hn
  cases hts with
  | @cons t _ _ _ ht hnil =>
    cases hnil
    obtain ⟨m, rfl⟩ := Nat.exists_eq_succ_of_ne_zero (n := n) (by simp at hn; omega)
    have hkind : t.kind = value.glyph.kind := ht.kind_eq
    have hrest : c.rest = t :: rest := hrest
    have hop : UnaryOp.ofKind? t.kind = none := by
      rw [hkind]
      cases value with
      | bool b => cases b <;> rfl
      | number | string | nil => rfl
    have hnext : c.next.rest = rest := rest_next hrest (by
      rw [hkind]
      cases value with
      | bool b => cases b <;> rfl
      | number | string | nil => rfl)
    refine ⟨fun u hu => by cases hu; exact hop, .literal value t.span, c.next, ?_, rfl, hnext⟩
    rw [primary, peek_bind hrest, hkind]
    cases value with
    | bool b => cases b <;> rfl
    | nil => rfl
    | string s =>
      obtain ⟨-, rfl⟩ : t.kind = .string ∧ t.lexeme = s := ht
      rfl
    | number x =>
      obtain ⟨-, hx⟩ : t.kind = .number ∧ readFloat? t.lexeme.toList = some x := ht
      have hfinite : x.isFinite = true := hvalue
      have hnumber : numberLiteral t = pure (.number x) := by
        rw [numberLiteral, hx]
        exact if_pos hfinite
      show (numberLiteral t >>= fun value => literalAt t value) c = _
      rw [hnumber]
      rfl

theorem primary_name {ident : Ident} : Primary (.name ident span) := by
  intro n c ts rest hts hrest hn
  cases hts with
  | @cons t _ _ _ ht hnil =>
    cases hnil
    obtain ⟨m, rfl⟩ := Nat.exists_eq_succ_of_ne_zero (n := n) (by simp at hn; omega)
    obtain ⟨hkind, hname⟩ : t.kind = .name ∧ t.lexeme = ident.name := ht
    have hrest : c.rest = t :: rest := hrest
    have hnext : ({ c with lastId := c.lastId + 1 } : Cursor).next.rest = rest :=
      rest_next hrest (by rw [hkind]; rfl)
    refine ⟨fun u hu => by cases hu; rw [hkind]; rfl, .name ⟨t.lexeme, c.lastId + 1⟩ t.span, _, ?_,
      by simp only [Expr.bare, hname], hnext⟩
    rw [primary, peek_bind hrest, hkind]
    rfl

theorem primary_this {ident : Ident} (hname : ident.name = "this") :
    Primary (.this ident span) := by
  intro n c ts rest hts hrest hn
  cases hts with
  | @cons t _ _ _ ht hnil =>
    cases hnil
    obtain ⟨m, rfl⟩ := Nat.exists_eq_succ_of_ne_zero (n := n) (by simp at hn; omega)
    have hkind : t.kind = .keyword .this := ht
    have hrest : c.rest = t :: rest := hrest
    have hnext : ({ c with lastId := c.lastId + 1 } : Cursor).next.rest = rest :=
      rest_next hrest (by rw [hkind]; rfl)
    refine ⟨fun u hu => by cases hu; rw [hkind]; rfl, .this ⟨"this", c.lastId + 1⟩ t.span, _, ?_,
      by simp only [Expr.bare, hname], hnext⟩
    rw [primary, peek_bind hrest, hkind]
    rfl

theorem primary_super {ident : Ident} {method : String} (hname : ident.name = "super") :
    Primary (.super ident method span) := by
  intro n c ts rest hts hrest hn
  obtain ⟨t, dot, name, rfl, hkind, hdot, hmethod⟩ : ∃ t dot name, ts = [t, dot, name]
      ∧ t.kind = .keyword .super ∧ dot.kind = .symbol .dot
      ∧ name.kind = .name ∧ name.lexeme = method := by
    cases hts with
    | @cons t _ _ _ ht hts =>
      cases hts with
      | @cons dot _ _ _ hdot hts =>
        cases hts with
        | @cons name _ _ _ hm hts =>
          cases hts
          exact ⟨t, dot, name, rfl, ht, hdot, hm⟩
  obtain ⟨hmethod, rfl⟩ := hmethod
  obtain ⟨m, rfl⟩ := Nat.exists_eq_succ_of_ne_zero (n := n) (by simp at hn; omega)
  have hrest : c.rest = t :: dot :: name :: rest := hrest
  have hc₁ := rest_next hrest (by rw [hkind]; rfl)
  have hc₂ := rest_next hc₁ (by rw [hdot]; rfl)
  have hc₃ : ({ c.next.next.next with lastId := c.next.next.next.lastId + 1 } : Cursor).rest = rest :=
    rest_next hc₂ (by rw [hmethod]; rfl)
  refine ⟨fun u hu => by cases hu; rw [hkind]; rfl,
    .super ⟨"super", c.next.next.next.lastId + 1⟩ name.lexeme
      (t.span.union c.next.next.next.previous.span), _, ?_, by simp only [Expr.bare, hname], hc₃⟩
  rw [primary, peek_bind hrest, hkind]
  dsimp only
  rw [advance_bind hrest, superRest, expect_bind hc₁ hdot, expect_bind hc₂ hmethod]
  rfl

theorem primary_group (h : Whole e) : Primary (.group e span) := by
  intro n c ts rest hts hrest hn
  cases hts with
  | @cons opens _ ws _ hopens hws =>
    obtain ⟨vs, closes, _, rfl, hvs, hcloses, hnil⟩ := exists_between_of_shows hws
    cases hnil
    have hopens : opens.kind = .symbol .leftParen := hopens
    have hcloses : closes.kind = .symbol .rightParen := hcloses
    simp only [List.append_assoc, List.cons_append, List.nil_append] at hrest
    simp only [List.length_append, List.length_cons, List.length_nil] at hn
    obtain ⟨m, rfl⟩ := Nat.exists_eq_succ_of_ne_zero (n := n) (by omega)
    have hc₁ := rest_next hrest (by rw [hopens]; rfl)
    obtain ⟨e', c₂, hp, he, hc₂⟩ := h (n := m) hvs hc₁ (by rw [hcloses]; exact .rightParen) (by omega)
    refine ⟨fun u hu => by cases hu; rw [hopens]; rfl,
      .group e' (opens.span.union c₂.next.previous.span), c₂.next, ?_, by simp only [Expr.bare, he],
      rest_next hc₂ (by rw [hcloses]; rfl)⟩
    rw [primary, peek_bind hrest, hopens]
    dsimp only
    rw [advance_bind hrest, Outcome.bind_apply, hp]
    dsimp only
    rw [expect_bind hc₂ hcloses]
    rfl

theorem primary_list {es : List Expr} (hes : ∀ e ∈ es, Whole e) : Primary (.list es span) := by
  intro n c ts rest hts hrest hn
  cases hts with
  | @cons opens _ ws _ hopens hws =>
    obtain ⟨vs, closes, _, rfl, hvs, hcloses, hnil⟩ := exists_between_of_shows hws
    cases hnil
    have hopens : opens.kind = .symbol .leftBracket := hopens
    have hcloses : closes.kind = .symbol .rightBracket := hcloses
    simp only [List.append_assoc, List.cons_append, List.nil_append] at hrest
    simp only [List.length_append, List.length_cons, List.length_nil] at hn
    obtain ⟨m, rfl⟩ := Nat.exists_eq_succ_of_ne_zero (n := n) (by omega)
    have hc₁ := rest_next hrest (by rw [hopens]; rfl)
    have hq : es ≠ [] → GivesAll (elements m) c.next es (closes :: rest) := fun hne =>
      listed_gives (p := fun n _ => elements n) (b := es.length) (k := 0)
        (fun n _ _ => elements_succ n) hes hne (by omega) hvs hc₁
        (by rw [hcloses]; exact .rightBracket) (by rw [hcloses]; decide) (by omega)
    obtain ⟨es', c₂, hb, hbare, hc₂⟩ := bracketed_gives hvs hc₁ (.inr hcloses) hq fun es => do
      let _ ← expect (.symbol .rightBracket) .closingBracketExpected
      return Expr.list es (← spanFrom opens.span)
    rw [hcloses] at hb
    refine ⟨fun u hu => by cases hu; rw [hopens]; rfl,
      .list es' (opens.span.union c₂.next.previous.span), c₂.next, ?_,
      by simp only [Expr.bare, hbare], rest_next hc₂ (by rw [hcloses]; rfl)⟩
    rw [primary, peek_bind hrest, hopens]
    dsimp only
    rw [advance_bind hrest]
    refine hb.trans ?_
    rw [expect_bind hc₂ hcloses]
    rfl

/-! ### Assignments -/

/-- What stands to the left of an assignment is read as an expression, and then made its target. -/
theorem whole_assignment {target value result : Expr} (ht : Operators .or target) (hv : Whole value)
    (hglyphs : result.glyphs = target.glyphs ++ .fixed (.symbol .equal) :: value.glyphs)
    (hassign : ∀ target' value' c, target'.bare = target.bare → value'.bare = value.bare →
      ∃ e, assignTo target' value' c = .ok e c ∧ e.bare = result.bare) : Whole result := by
  intro n c ts t rest hts hrest hs hn
  have hts : List.Forall₂ Token.Shows ts
      (target.glyphs ++ .fixed (.symbol .equal) :: value.glyphs) := hglyphs ▸ hts
  obtain ⟨us, eq, vs, rfl, hus, heq, hvs⟩ := exists_between_of_shows hts
  have heq : eq.kind = .symbol .equal := heq
  have hpos : 0 < us.length := Expr.Renders.length_pos hus
  rw [List.append_assoc, List.cons_append] at hrest
  simp only [List.length_append, List.length_cons] at hn
  obtain ⟨m, rfl⟩ := Nat.exists_eq_succ_of_ne_zero (n := n) (by omega)
  have hstops : eq.kind.Stops 1 := by
    rw [heq]
    exact .equal
  obtain ⟨n₁, target', c₁, hgo, hspent, htarget, hc₁⟩ :=
    ht (n := m) hus hrest (hstops.mono (by decide)) (by show _ < m + 2; omega)
  have hc₂ := rest_next hc₁ (by rw [heq]; rfl)
  obtain ⟨value', c₃, hp, hvalue, hc₃⟩ := hv (n := m) hvs hc₂ hs (by omega)
  obtain ⟨e, hresult, hbare⟩ := hassign target' value' c₃ htarget hvalue
  refine ⟨e, c₃, ?_, hbare, hc₃⟩
  rw [expression, Outcome.bind_apply, hgo.trans (moreOperands_stop (by omega) hc₁ hstops)]
  dsimp only
  rw [accept_bind hc₁ heq rfl, if_pos rfl, Outcome.bind_apply, hp]
  exact hresult

theorem whole_assign {target : Ident} {value : Expr} (ht : Operators .or (.name target span))
    (hv : Whole value) : Whole (.assign target value span) := by
  refine whole_assignment ht hv rfl fun target' value' c htarget hvalue => ?_
  cases target' with
  | name ident span' =>
    simp only [Expr.bare, Expr.name.injEq, Ident.mk.injEq, and_true] at htarget
    exact ⟨_, rfl, by simp only [Expr.bare, htarget, hvalue]⟩
  | literal | list | assign | unary | binary | logical | group | call | getField | setField | this
  | super => exact nomatch htarget

theorem whole_setField {object : Expr} {field : String} {value : Expr}
    (ht : Operators .or (.getField object field span)) (hv : Whole value) :
    Whole (.setField object field value span) := by
  refine whole_assignment ht hv rfl fun target' value' c htarget hvalue => ?_
  cases target' with
  | getField object' field' span' =>
    simp only [Expr.bare, Expr.getField.injEq, and_true] at htarget
    exact ⟨_, rfl, by simp only [Expr.bare, htarget, hvalue]⟩
  | literal | list | assign | unary | binary | logical | group | call | name | setField | this
  | super => exact nomatch htarget

/-! ## All canonical trees -/

/-- The expression is read back wherever it binds tightly enough. -/
structure Accepted (e : Expr) : Prop where
  whole : Whole e
  operators : ∀ l : Level, l.tightness ≤ e.tightness → Operators l e
  prefixed : 7 ≤ e.tightness → Prefixed e
  chained : 8 ≤ e.tightness → Chained e

/-- From a level of the grammar, every looser one is reached. -/
theorem Operators.looser {top : Level} (h : Operators top e) (hle : l.tightness ≤ top.tightness) :
    Operators l e := by
  induction hd : top.tightness - l.tightness generalizing l with
  | zero =>
    obtain rfl : l = top := by
      have : l.tightness = top.tightness := by omega
      cases l <;> cases top <;> first | rfl | exact absurd this (by decide)
    exact h
  | succ d ih =>
    cases hk : l.tighter? with
    | none =>
      have := Level.tightness_factor hk
      have : top.tightness ≤ 6 := by cases top <;> decide
      omega
    | some k =>
      have := Level.tightness_tighter hk
      exact ((ih (l := k) (by omega) (by omega)).operand hk).operators

theorem Prefixed.accepted (h : Prefixed e) (hc : 8 ≤ e.tightness → Chained e) : Accepted e := by
  have hfactor : Operators .factor e := h.operand.operators
  exact ⟨(hfactor.looser (by decide)).whole, fun l _ => hfactor.looser (by cases l <;> decide),
    fun _ => h, hc⟩

theorem Chained.accepted (h : Chained e) : Accepted e := h.prefixed.accepted fun _ => h

theorem Operators.accepted (h : Operators l e) (ht : e.tightness = l.tightness) : Accepted e := by
  have hle : l.tightness ≤ 6 := by cases l <;> decide
  have hpos : 1 ≤ l.tightness := by cases l <;> decide
  exact ⟨(h.looser (l := .or) hpos).whole, fun k hk => h.looser (by omega), fun h7 => by omega,
    fun h8 => by omega⟩

theorem Whole.accepted (h : Whole e) (ht : e.tightness = 0) : Accepted e := by
  refine ⟨h, fun l hl => ?_, fun h7 => by omega, fun h8 => by omega⟩
  have hpos : 1 ≤ l.tightness := by cases l <;> decide
  omega

/-- An operand of a level is accepted wherever operators of that level are. -/
theorem Accepted.operand (h : Accepted e) (ht : l.tightness < e.tightness) : Operand l e := by
  cases hk : l.tighter? with
  | some k =>
    have := Level.tightness_tighter hk
    exact (h.operators k (by omega)).operand hk
  | none =>
    have h6 := Level.tightness_factor hk
    obtain rfl : l = .factor := by cases l <;> first | rfl | exact absurd h6 (by decide)
    exact (h.prefixed (by omega)).operand

/-- What is read as an operand can be assigned to, as far as the grammar goes. -/
theorem Accepted.loosest (h : Accepted e) (ht : 0 < e.tightness) : Operators .or e := h.operators .or ht

mutual

/-- Every canonical tree is read back. -/
theorem accepted : ∀ e : Expr, e.Canonical → Accepted e
  | .literal value _, h => (primary_literal h).chained.accepted
  | .list es _, h => (primary_list fun e he => (allAccepted es h e he).whole).chained.accepted
  | .name _ _, _ => primary_name.chained.accepted
  | .assign target value span, h => by
    have ht : Accepted (.name target span) := primary_name.chained.accepted
    exact (whole_assign (ht.loosest (Nat.succ_pos _)) (accepted value h).whole).accepted rfl
  | .unary op e _, h =>
    (prefixed_unary ((accepted e h.1).prefixed h.2)).accepted fun h8 =>
      absurd h8 (Nat.not_succ_le_self 7)
  | .binary left op right _, h => by
    refine (operators_join (j := .binary op) ((accepted left h.1.1).operators _ h.1.2)
      ((accepted right h.2.1).operand h.2.2) rfl fun left' right' hl hr => ?_).accepted rfl
    simp only [Joiner.join, Expr.bare, hl, hr]
  | .logical left op right _, h => by
    refine (operators_join (j := .logical op) ((accepted left h.1.1).operators _ h.1.2)
      ((accepted right h.2.1).operand h.2.2) rfl fun left' right' hl hr => ?_).accepted rfl
    simp only [Joiner.join, Expr.bare, hl, hr]
  | .group e _, h => (primary_group (accepted e h).whole).chained.accepted
  | .call e args _, h =>
    (chained_call ((accepted e h.1.1).chained h.1.2)
      (fun a ha => (allAccepted args h.2.1 a ha).whole) h.2.2).accepted
  | .getField e _ _, h => (chained_getField ((accepted e h.1).chained h.2)).accepted
  | .setField e field value span, h => by
    have ht : Accepted (.getField e field span) :=
      (chained_getField ((accepted e h.1.1).chained h.1.2)).accepted
    exact (whole_setField (ht.loosest (Nat.succ_pos _)) (accepted value h.2).whole).accepted rfl
  | .this _ _, h => (primary_this h).chained.accepted
  | .super _ _ _, h => (primary_super h).chained.accepted

theorem allAccepted : ∀ es : List Expr, Expr.AllCanonical es → ∀ e ∈ es, Accepted e
  | [], _, _, he => nomatch he
  | e :: es, h, e', he => by
    rcases List.mem_cons.1 he with heq | he
    · exact heq ▸ accepted e h.1
    · exact allAccepted es h.2 e' he

end

end Parser

/-! ## Spelling -/

/-- The text of a symbol. -/
def Symbol.text : Symbol → String
  | .leftParen => "("
  | .rightParen => ")"
  | .leftBrace => "\x7b"
  | .rightBrace => "\x7d"
  | .leftBracket => "["
  | .rightBracket => "]"
  | .comma => ","
  | .dot => "."
  | .semicolon => ";"
  | .bang => "!"
  | .minus => "-"
  | .plus => "+"
  | .slash => "/"
  | .star => "*"
  | .percent => "%"
  | .bangEqual => "!="
  | .equalEqual => "=="
  | .greater => ">"
  | .greaterEqual => ">="
  | .less => "<"
  | .lessEqual => "<="
  | .equal => "="

/-- A symbol carries its text, and a keyword a word that stands for it. -/
def Spelled : TokenKind → String → Prop
  | .symbol s, lexeme => lexeme = s.text
  | .keyword k, lexeme => Keyword.ofWord? lexeme = some k
  | _, _ => True

theorem Symbol.text_ofChar {c : Char} {s : Symbol} (h : Symbol.ofChar? c = some s) :
    String.ofList [c] = s.text := by
  unfold Symbol.ofChar? at h
  split at h <;> cases h <;> rfl

theorem Symbol.text_ofExtensible {c : Char} {short long : Symbol}
    (h : Symbol.ofExtensible? c = some (short, long)) :
    String.ofList [c] = short.text ∧ String.ofList [c, '='] = long.text := by
  unfold Symbol.ofExtensible? at h
  split at h <;> cases h <;> exact ⟨rfl, rfl⟩

theorem Piece.first_spelled (c : Char) (cs : List Char) :
    Spelled (Piece.first c cs).kind (Piece.first c cs).lexeme := by
  unfold Piece.first
  split
  · next short long h =>
      obtain ⟨hshort, hlong⟩ := Symbol.text_ofExtensible h
      unfold Piece.extensible
      split
      · exact hlong
      · exact hshort
  · split
    · next hc =>
        rw [eq_of_beq hc]
        rfl
    · split
      · unfold Piece.string
        split <;> trivial
      · split
        · next s h => exact Symbol.text_ofChar h
        · split
          · cases hk : Keyword.ofWord? (String.ofList (c :: cs.takeWhile Text.continuesName)) with
            | none => simp only [Piece.word, hk, Option.map_none, Option.getD_none, Spelled]
            | some k => simp only [Piece.word, hk, Option.map_some, Option.getD_some, Spelled, Piece.lexeme]
          · split
            · unfold Piece.number
              split
              · split <;> trivial
              · trivial
            · trivial

/-- The tokens of a text are spelled as their kinds ask for. -/
theorem scan_spelled (file source : String) : ∀ t ∈ scan file source, Spelled t.kind t.lexeme :=
  scanFrom_forall trivial Piece.first_spelled file _ _ _

/-! ## Trees that were read -/

section

variable {tokens : List Token} {G : Gauge tokens} {i m j : Nat} {g : Glyph} {gs gs' : List Glyph}

/-- The tokens from `i` up to `j` show the glyphs. -/
def ShownFrom (tokens : List Token) (i j : Nat) (gs : List Glyph) : Prop :=
  ∃ ts, tokens.drop i = ts ++ tokens.drop j ∧ List.Forall₂ Token.Shows ts gs

theorem ShownFrom.nil : ShownFrom tokens i i [] := ⟨[], rfl, .nil⟩

theorem ShownFrom.append (h : ShownFrom tokens i m gs) (h' : ShownFrom tokens m j gs') :
    ShownFrom tokens i j (gs ++ gs') := by
  obtain ⟨ts, hts, hshow⟩ := h
  obtain ⟨ts', hts', hshow'⟩ := h'
  exact ⟨ts ++ ts', by rw [hts, hts', List.append_assoc], List.rel_append hshow hshow'⟩

theorem ShownAt.cons (h : ShownAt tokens i g) (h' : ShownFrom tokens (i + 1) j gs) :
    ShownFrom tokens i j (g :: gs) := by
  obtain ⟨t, ht, hg⟩ := h
  obtain ⟨ts, hts, hshow⟩ := h'
  obtain ⟨hi, rfl⟩ := List.getElem?_eq_some_iff.1 ht
  exact ⟨_ :: ts, by rw [List.drop_eq_getElem_cons hi, hts]; rfl, .cons hg hshow⟩

theorem ShownAt.last (h : ShownAt tokens i g) : ShownFrom tokens i (i + 1) [g] := h.cons .nil

mutual

/-- An expression has the tokens that it was read from. -/
theorem Expr.ReadFrom.shown : ∀ {e : Expr} {i j : Nat}, e.ReadFrom G i j → ShownFrom tokens i j e.glyphs
  | .literal .., _, _, ⟨_, rfl, h, _⟩ => h.last
  | .list .., _, _, ⟨_, _, rfl, hopen, hes, hclose⟩ =>
    hopen.cons (.append (exprsReadFrom.shown hes) hclose.last)
  | .name .., _, _, ⟨_, rfl, h⟩ => h.last
  | .assign .., _, _, ⟨_, hname, hequal, hvalue⟩ => hname.cons (hequal.cons hvalue.shown)
  | .unary .., _, _, ⟨_, hop, h⟩ => hop.cons h.shown
  | .binary .., _, _, ⟨_, _, hleft, hop, hright⟩ => hleft.shown.append (hop.cons hright.shown)
  | .logical .., _, _, ⟨_, _, hleft, hop, hright⟩ => hleft.shown.append (hop.cons hright.shown)
  | .group .., _, _, ⟨_, _, rfl, hopen, h, hclose⟩ => hopen.cons (h.shown.append hclose.last)
  | .call .., _, _, ⟨_, _, _, _, rfl, hcallee, hopen, hargs, hclose⟩ =>
    hcallee.shown.append (hopen.cons (.append (exprsReadFrom.shown hargs) hclose.last))
  | .getField .., _, _, ⟨_, _, rfl, h, hdot, hfield⟩ => h.shown.append (hdot.cons hfield.last)
  | .setField .., _, _, ⟨_, _, h, hdot, hfield, hequal, hvalue⟩ =>
    (h.shown.append (hdot.cons hfield.last)).append (hequal.cons hvalue.shown)
  | .this .., _, _, ⟨_, rfl, h, _⟩ => h.last
  | .super .., _, _, ⟨_, rfl, h, hdot, hmethod, _⟩ => h.cons (hdot.cons hmethod.last)

theorem exprsReadFrom.shown : ∀ {es : List Expr} {i j : Nat}, exprsReadFrom G es i j →
    ShownFrom tokens i j (Expr.separated es)
  | [], _, _, rfl => .nil
  | _ :: _, _, _, ⟨_, h, hrest⟩ => h.shown.append (furtherReadFrom.shown hrest)

theorem furtherReadFrom.shown : ∀ {es : List Expr} {i j : Nat}, furtherReadFrom G es i j →
    ShownFrom tokens i j (Expr.continued es)
  | [], _, _, rfl => .nil
  | _ :: _, _, _, ⟨hcomma, _, h, hrest⟩ => hcomma.cons (h.shown.append (furtherReadFrom.shown hrest))

end

end

/-- A cursor before the token `i` of a list that may go on after a closing token. -/
structure Cursor.On (tokens : List Token) (i : Nat) (c : Cursor) : Prop where
  closed : c.Closed
  rest : c.rest = tokens.drop i
  previous : 0 < i → tokens[i - 1]? = some c.previous

theorem Cursor.On.current {tokens : List Token} {i : Nat} (h : c.On tokens i) :
    tokens[i]? = some c.current := by
  obtain ⟨rest, hrest⟩ := h.closed.exists_cons
  rw [← List.head?_drop, ← h.rest, hrest, List.head?_cons]

instance {tokens : List Token} : Track tokens (Cursor.On tokens) where
  current h := h.current
  previous h := h.previous
  number h := ⟨h.closed, h.rest, h.previous⟩
  next {i c} h hend := by
    obtain ⟨hclosed, hrest⟩ := h.closed.next hend
    refine ⟨hclosed, ?_, fun _ => ?_⟩
    · rw [← List.tail_drop, ← h.rest, hrest, List.tail_cons]
    · rw [Cursor.next, hend]
      exact h.current

/-! ## The parser accepts exactly its grammar -/

/-- The expression parser accepts exactly its grammar. The tokens of a canonical tree, followed by a
    semicolon, are read back as that tree, up to ids and spans, and the semicolon is left; 16
    rounds for each token are enough. Whatever it accepts, from whatever place of a closed token
    list, is canonical and has exactly the tokens it has taken. They agree with the tree in their
    kinds and in the texts of names, strings and numbers; the other texts are those of the kinds, if
    the tokens are those of a source text. -/
theorem expression_exact :
    (∀ e : Expr, e.Canonical → ∀ (ts rest : List Token) (semicolon : Token) (c : Cursor) (n : Nat),
      e.Renders ts → semicolon.kind = .symbol .semicolon → c.rest = ts ++ semicolon :: rest →
      16 * ts.length ≤ n →
      ∃ e' c', Parser.expression n c = .ok e' c' ∧ e'.bare = e.bare ∧ c'.rest = semicolon :: rest)
    ∧ (∀ (n : Nat) (c c' : Cursor) (e : Expr), c.Closed → Parser.expression n c = .ok e c' →
        e.Canonical ∧ ∃ ts, c.rest = ts ++ c'.rest ∧ e.Renders ts)
    ∧ ∀ file source, ∀ t ∈ scan file source, Spelled t.kind t.lexeme := by
  refine ⟨?_, ?_, scan_spelled⟩
  · intro e he ts rest semicolon c n hts hsemicolon hrest hn
    exact (Parser.accepted e he).whole hts hrest (by rw [hsemicolon]; exact .semicolon) hn
  · intro n c c' e hc hrun
    have hgoes := (Parser.goExprs (Cursor.On c.rest) (Gauge.any _) n).expression 0 _ c ⟨hc, rfl, nofun⟩ rfl
    rw [hrun] at hgoes
    obtain ⟨j, htrail, -, he⟩ := hgoes
    obtain ⟨ts, hts, hshow⟩ := he.read.shown
    rw [← htrail.stands.rest] at hts
    exact ⟨he.canonical, ts, hts, hshow⟩

/-- The tokens of `a = b - c(d)`, and a semicolon. -/
def assignmentTokens : List Token :=
  [⟨.name, "a", .empty⟩, ⟨.symbol .equal, "=", .empty⟩, ⟨.name, "b", .empty⟩, ⟨.symbol .minus, "-", .empty⟩,
    ⟨.name, "c", .empty⟩, ⟨.symbol .leftParen, "(", .empty⟩, ⟨.name, "d", .empty⟩,
    ⟨.symbol .rightParen, ")", .empty⟩]

/-- An assignment. -/
theorem expression_exact_assignment : ∃ e' c',
    Parser.expression 128 ⟨⟨.name, "a", .empty⟩,
        assignmentTokens ++ [⟨.symbol .semicolon, ";", .empty⟩], 0, []⟩ = .ok e' c'
      ∧ e'.bare = (Expr.assign ⟨"a", 0⟩ (.binary (.name ⟨"b", 0⟩ .empty) .minus
          (.call (.name ⟨"c", 0⟩ .empty) [.name ⟨"d", 0⟩ .empty] .empty) .empty) .empty).bare
      ∧ c'.rest = [⟨.symbol .semicolon, ";", .empty⟩] := by
  refine expression_exact.1 _ ?_ assignmentTokens [] _ _ 128 ?_ rfl rfl (by decide)
  · exact ⟨⟨trivial, by decide⟩, ⟨⟨trivial, by decide⟩, ⟨trivial, trivial⟩, by decide⟩, by decide⟩
  · exact .cons ⟨rfl, rfl⟩ (.cons rfl (.cons ⟨rfl, rfl⟩ (.cons rfl (.cons ⟨rfl, rfl⟩ (.cons rfl
      (.cons ⟨rfl, rfl⟩ (.cons rfl .nil)))))))

end Eleu
