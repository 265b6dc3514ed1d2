import Eleu.Proofs.Span.Union
import Eleu.Proofs.Tree.Accepted

/-! # The places of parsed trees

    The parser makes up the place of a node from those of its first token and of its last one, or from
    the places of its parts. Since the tokens of a text stand one after the other
    (`Partition.placed`), a union of places begins where the first one begins and ends where the last
    one ends, so `Gauge.exact` is a gauge: every node has the place from its first token to its last
    token. Two nodes are nested as the ranges of their tokens are (`Item.nestedIn_of_readFrom`). -/

namespace Eleu

variable {tokens : List Token} {outer : Span} {file : String} {x : Item} {k : Nat}

/-! ## The order of positions -/

namespace Pos

theorem le_after (p : Pos) (c : Char) : p ≤ p.after c := by
  unfold after
  split
  · exact .inl (Nat.lt_succ_self _)
  · exact .inr ⟨rfl, Nat.le_succ _⟩

theorem le_afterAll (p : Pos) (cs : List Char) : p ≤ p.afterAll cs := by
  induction cs generalizing p with
  | nil => exact le_rfl
  | cons c cs ih => exact (p.le_after c).trans (ih _)

/-- Later in the text is later in lines and columns. -/
theorem atOffset_le {text : List Char} {a b : Nat} (h : a ≤ b) : atOffset text a ≤ atOffset text b := by
  have htake : text.take b = text.take a ++ (text.take b).drop a := by
    conv => lhs; rw [← List.take_append_drop a (text.take b), List.take_take, Nat.min_eq_left h]
  have hpos : ∀ o, atOffset text o = Pos.first.afterAll (text.take o) := fun o =>
    (afterAll_first (text.take o)).symm
  rw [hpos a, hpos b, htake, afterAll_append]
  exact le_afterAll _ _

end Pos

/-! ## The places of tokens -/

/-- The tokens stand in the file one after the other. -/
structure Placed (file : String) (tokens : List Token) : Prop where
  inFile : ∀ t ∈ tokens, t.span.file = file ∧ t.span.start.line ≠ 0
  forward : ∀ t ∈ tokens, t.span.start ≤ t.span.stop
  ordered : tokens.Pairwise fun t u => t.span.stop ≤ u.span.start

/-- A token stands where it was cut. -/
theorem Token.Cut.placed {text : List Char} {prev start stop : Nat} {t : Token}
    (h : t.Cut file text prev start stop) :
    (t.span.file = file ∧ t.span.start.line ≠ 0) ∧ t.span.start ≤ t.span.stop := by
  rw [h.span]
  exact ⟨⟨rfl, Nat.succ_ne_zero _⟩, Pos.atOffset_le h.order.2.1⟩

/-- The tokens that a text is cut into are placed as they are cut. -/
theorem Partition.placed {text : List Char} {prev : Nat} (h : Partition file text prev tokens) :
    Placed file tokens ∧ ∀ t ∈ tokens, Pos.atOffset text prev ≤ t.span.start := by
  have hbefore : ∀ {prev start stop : Nat} {t : Token}, t.Cut file text prev start stop →
      Pos.atOffset text prev ≤ t.span.start := by
    intro prev start stop t cut
    rw [cut.span]
    exact Pos.atOffset_le cut.order.1
  induction h with
  | last cut _ _ =>
    obtain ⟨hfile, hforward⟩ := cut.placed
    refine ⟨⟨?_, ?_, List.pairwise_singleton _ _⟩, ?_⟩
    · exact List.forall_mem_singleton.2 hfile
    · exact List.forall_mem_singleton.2 hforward
    · exact List.forall_mem_singleton.2 (hbefore cut)
  | @next prev start stop t ts cut _ _ ih =>
    obtain ⟨hfile, hforward⟩ := cut.placed
    obtain ⟨hplaced, hafter⟩ := ih
    -- The tokens that follow are cut off the text where this one stops.
    have hstop : t.span.stop = Pos.atOffset text stop := by rw [cut.span]
    have hprev : Pos.atOffset text prev ≤ Pos.atOffset text stop :=
      Pos.atOffset_le (Nat.le_trans cut.order.1 cut.order.2.1)
    refine ⟨⟨?_, ?_, ?_⟩, ?_⟩
    · exact List.forall_mem_cons.2 ⟨hfile, hplaced.inFile⟩
    · exact List.forall_mem_cons.2 ⟨hforward, hplaced.forward⟩
    · exact List.pairwise_cons.2 ⟨fun u hu => hstop ▸ hafter u hu, hplaced.ordered⟩
    · exact List.forall_mem_cons.2 ⟨hbefore cut, fun u hu => hprev.trans (hafter u hu)⟩

/-- The tokens of a text stand one behind the other. -/
theorem scan_placed (file source : String) : Placed file (scan file source) :=
  (scanFrom_partition file [] source.toList (Nat.lt_succ_self _)).placed.1

namespace Placed

variable {file : String} {tokens : List Token} {i j : Nat} {t u : Token}

theorem stop_le_start (h : Placed file tokens) (hlt : i < j) (ht : tokens[i]? = some t)
    (hu : tokens[j]? = some u) : t.span.stop ≤ u.span.start := by
  obtain ⟨hi, rfl⟩ := List.getElem?_eq_some_iff.1 ht
  obtain ⟨hj, rfl⟩ := List.getElem?_eq_some_iff.1 hu
  exact List.pairwise_iff_getElem.1 h.ordered i j hi hj hlt

theorem start_le_start (h : Placed file tokens) (hle : i ≤ j) (ht : tokens[i]? = some t)
    (hu : tokens[j]? = some u) : t.span.start ≤ u.span.start := by
  rcases Nat.lt_or_eq_of_le hle with hlt | rfl
  · exact (h.forward t (List.mem_of_getElem? ht)).trans (h.stop_le_start hlt ht hu)
  · obtain rfl : t = u := Option.some.inj (ht.symm.trans hu)
    exact le_rfl

theorem stop_le_stop (h : Placed file tokens) (hle : i ≤ j) (ht : tokens[i]? = some t)
    (hu : tokens[j]? = some u) : t.span.stop ≤ u.span.stop := by
  rcases Nat.lt_or_eq_of_le hle with hlt | rfl
  · exact (h.stop_le_start hlt ht hu).trans (h.forward u (List.mem_of_getElem? hu))
  · obtain rfl : t = u := Option.some.inj (ht.symm.trans hu)
    exact le_rfl

end Placed

/-! ## Exact places -/

/-- The span from where the token `i` starts to where the last token before the token `j` stops. -/
def Exactly (file : String) (tokens : List Token) (i j : Nat) (span : Span) : Prop :=
  i < j ∧ ∃ first last, tokens[i]? = some first ∧ tokens[j - 1]? = some last
    ∧ span = ⟨file, first.span.start, last.span.stop⟩

/-- The place from one token to another is not that of no place. -/
theorem Placed.isEmpty_eq_false (h : Placed file tokens) {i : Nat} {t : Token}
    (ht : tokens[i]? = some t) (stop : Pos) : Span.isEmpty ⟨file, t.span.start, stop⟩ = false := by
  have hline := (h.inFile t (List.mem_of_getElem? ht)).2
  rw [Span.isEmpty, beq_eq_false_iff_ne.2 hline, Bool.false_and]

/-- The tokens of a node decide its place. -/
def Gauge.exact (file source : String) : Gauge (scan file source) where
  fits := Exactly file (scan file source)
  token {i t} ht := by
    obtain ⟨hfile, -⟩ := (scan_placed file source).inFile t (List.mem_of_getElem? ht)
    refine ⟨Nat.lt_succ_self i, t, t, ht, ht, ?_⟩
    rw [← hfile]
  union {i k l j a b} := by
    rintro ⟨hik, first, mid, hfirst, hmid, rfl⟩ hkl ⟨hlj, mid', last, hmid', hlast, rfl⟩
    have hplaced := scan_placed file source
    refine ⟨by omega, first, last, hfirst, hlast, ?_⟩
    -- The first part begins first, and the second one ends last.
    have hstart := hplaced.start_le_start (by omega) hfirst hmid'
    have hstop := hplaced.stop_le_stop (by omega) hmid hlast
    rw [Span.union, hplaced.isEmpty_eq_false hfirst, hplaced.isEmpty_eq_false hmid']
    show Span.mk file (min _ _) (max _ _) = _
    rw [min_eq_left hstart, max_eq_right hstop]

/-! ## Nested places -/

/-- The span lies within the other one, in the same file. -/
def Span.Contains (outer inner : Span) : Prop :=
  inner.file = outer.file ∧ outer.start ≤ inner.start ∧ inner.stop ≤ outer.stop

/-- A place that is decided by more tokens contains the one that is decided by fewer. -/
theorem Exactly.contains {source : String} {i j l : Nat} {inner : Span}
    (houter : Exactly file (scan file source) i j outer)
    (hinner : Exactly file (scan file source) k l inner) (hi : i ≤ k) (hj : l ≤ j) :
    outer.Contains inner := by
  obtain ⟨-, first, last, hfirst, hlast, rfl⟩ := houter
  obtain ⟨hlt, first', last', hfirst', hlast', rfl⟩ := hinner
  have hplaced := scan_placed file source
  exact ⟨rfl, hplaced.start_le_start hi hfirst hfirst', hplaced.stop_le_stop (by omega) hlast' hlast⟩

mutual

/-- The place of the expression lies in the given one, and the places of its parts lie in its own. -/
def Expr.NestedIn : Expr → Span → Prop
  | .literal _ span, outer | .name _ span, outer | .this _ span, outer | .super _ _ span, outer =>
    outer.Contains span
  | .list elements span, outer => outer.Contains span ∧ exprsNestedIn elements span
  | .assign _ value span, outer => outer.Contains span ∧ value.NestedIn span
  | .unary _ operand span, outer => outer.Contains span ∧ operand.NestedIn span
  | .binary left _ right span, outer =>
    outer.Contains span ∧ left.NestedIn span ∧ right.NestedIn span
  | .logical left _ right span, outer =>
    outer.Contains span ∧ left.NestedIn span ∧ right.NestedIn span
  | .group inner span, outer => outer.Contains span ∧ inner.NestedIn span
  | .call callee args span, outer =>
    outer.Contains span ∧ callee.NestedIn span ∧ exprsNestedIn args span
  | .getField object _ span, outer => outer.Contains span ∧ object.NestedIn span
  | .setField object _ value span, outer =>
    outer.Contains span ∧ object.NestedIn span ∧ value.NestedIn span

/-- All of the expressions are nested in the given place. -/
def exprsNestedIn : List Expr → Span → Prop
  | [], _ => True
  | e :: es, outer => e.NestedIn outer ∧ exprsNestedIn es outer

end

mutual

/-- The place of the item lies in the given one, and the places of its parts lie in its own. -/
def Item.NestedIn : Item → Span → Prop
  | .expr e span, outer => outer.Contains span ∧ e.NestedIn span
  | .var _ init span, outer => outer.Contains span ∧ ∀ e ∈ init, e.NestedIn span
  | .block items span, outer => outer.Contains span ∧ itemsNestedIn items span
  | .ifThen c t span, outer => outer.Contains span ∧ c.NestedIn span ∧ t.NestedIn span
  | .ifElse c t e span, outer =>
    outer.Contains span ∧ c.NestedIn span ∧ t.NestedIn span ∧ e.NestedIn span
  | .while c body increment span, outer =>
    outer.Contains span ∧ c.NestedIn span ∧ body.NestedIn span ∧ ∀ e ∈ increment, e.NestedIn span
  | .repeat count body span, outer => outer.Contains span ∧ count.NestedIn span ∧ body.NestedIn span
  | .return value span, outer => outer.Contains span ∧ ∀ e ∈ value, e.NestedIn span
  | .break span, outer | .continue span, outer => outer.Contains span
  | .assert c _ span, outer => outer.Contains span ∧ c.NestedIn span
  | .assertFails e _ span, outer => outer.Contains span ∧ e.NestedIn span
  | .function decl span, outer => outer.Contains span ∧ decl.NestedIn span
  | .class _ _ methods span, outer => outer.Contains span ∧ methodsNestedIn methods span

/-- All of the items are nested in the given place. -/
def itemsNestedIn : List Item → Span → Prop
  | [], _ => True
  | x :: xs, outer => x.NestedIn outer ∧ itemsNestedIn xs outer

/-- The place of the function lies in the given one, and its body in its own. -/
def FunctionDecl.NestedIn : FunctionDecl → Span → Prop
  | ⟨_, _, _, _, _, body, span⟩, outer => outer.Contains span ∧ itemsNestedIn body span

/-- All of the methods are nested in the given place. -/
def methodsNestedIn : List FunctionDecl → Span → Prop
  | [], _ => True
  | m :: ms, outer => m.NestedIn outer ∧ methodsNestedIn ms outer

end

/-! ## Trees that were read -/

section

variable {file source : String} {i j : Nat}

theorem Expr.ReadFrom.lt {e : Expr} (h : e.ReadFrom (Gauge.exact file source) i j) : i < j :=
  And.left (b := ∃ _, _) h.fits

theorem Item.ReadFrom.lt (h : x.ReadFrom (Gauge.exact file source) i j) : i < j :=
  And.left (b := ∃ _, _) h.fits

theorem FunctionDecl.ReadFrom.lt {d : FunctionDecl} {o : Nat}
    (h : d.ReadFrom (Gauge.exact file source) o i j) : o < j :=
  And.left (b := ∃ _, _) h.fits

theorem furtherReadFrom.le {es : List Expr} (h : furtherReadFrom (Gauge.exact file source) es i j) :
    i ≤ j := by
  induction es generalizing i with
  | nil => exact Nat.le_of_eq h
  | cons e es ih =>
    obtain ⟨-, m, he, hes⟩ := h
    have := he.lt
    have := ih hes
    omega

theorem exprsReadFrom.le {es : List Expr} (h : exprsReadFrom (Gauge.exact file source) es i j) :
    i ≤ j := by
  cases es with
  | nil => exact Nat.le_of_eq h
  | cons e es =>
    obtain ⟨m, he, hes⟩ := h
    exact Nat.le_trans (Nat.le_of_lt he.lt) (furtherReadFrom.le hes)

theorem optionReadFrom.le {e : Option Expr} (h : optionReadFrom (Gauge.exact file source) e i j) :
    i ≤ j := by
  cases e with
  | none => exact Nat.le_of_eq h
  | some e => exact Nat.le_of_lt (Expr.ReadFrom.lt h)

theorem messageReadFrom.le {message : Option String} (h : messageReadFrom tokens message i j) :
    i ≤ j := by
  cases message with
  | none =>
    have := h.1
    omega
  | some s =>
    have := h.1
    omega

theorem furtherParamsFrom.le {ps : List String} (h : furtherParamsFrom tokens ps i j) : i ≤ j := by
  induction ps generalizing i with
  | nil => exact Nat.le_of_eq h
  | cons p ps ih =>
    have := ih h.2.2
    omega

theorem paramsReadFrom.le {ps : List String} (h : paramsReadFrom tokens ps i j) : i ≤ j := by
  cases ps with
  | nil => exact Nat.le_of_eq h
  | cons p ps =>
    have := furtherParamsFrom.le h.2
    omega

theorem parentReadFrom.le {parent : Option Ident} (h : parentReadFrom tokens parent i j) :
    i ≤ j := by
  cases parent with
  | none => exact Nat.le_of_eq h
  | some p =>
    have := h.1
    omega

theorem itemsReadFrom.le {xs : List Item} (h : itemsReadFrom (Gauge.exact file source) xs i j) :
    i ≤ j := by
  induction xs generalizing i with
  | nil => exact Nat.le_of_eq h
  | cons x xs ih =>
    obtain ⟨m, hx, hxs⟩ := h
    exact Nat.le_trans (Nat.le_of_lt hx.lt) (ih hxs)

theorem itemsReadFrom.exists_of_mem {xs : List Item} {G : Gauge tokens} (h : itemsReadFrom G xs i j)
    (hx : x ∈ xs) : ∃ k l, x.ReadFrom G k l := by
  induction xs generalizing i with
  | nil => exact nomatch hx
  | cons y ys ih =>
    obtain ⟨m, hy, hys⟩ := h
    cases hx with
    | head => exact ⟨i, m, hy⟩
    | tail _ hx => exact ih hys hx

theorem methodsReadFrom.le {ms : List FunctionDecl}
    (h : methodsReadFrom (Gauge.exact file source) ms i j) : i ≤ j := by
  induction ms generalizing i with
  | nil => exact Nat.le_of_eq h
  | cons m ms ih =>
    obtain ⟨k, ⟨-, hm⟩, hms⟩ := h
    exact Nat.le_trans (Nat.le_of_lt hm.lt) (ih hms)

/-- The place reaches over all tokens from `i` up to `j`. -/
def Reaches (file source : String) (span : Span) (i j : Nat) : Prop :=
  ∃ a b, Exactly file (scan file source) a b span ∧ a ≤ i ∧ j ≤ b

/-- What reaches over the tokens of a part contains its place. -/
theorem Reaches.contains {span : Span} (h : Reaches file source outer i j)
    (hspan : Exactly file (scan file source) i j span) : outer.Contains span := by
  obtain ⟨a, b, houter, hi, hj⟩ := h
  exact houter.contains hspan hi hj

/-- A node reaches over the tokens of its parts. -/
theorem Exactly.reaches {span : Span} (h : Exactly file (scan file source) i j span) {l : Nat}
    (hi : i ≤ k := by omega) (hj : l ≤ j := by omega) : Reaches file source span k l :=
  ⟨i, j, h, hi, hj⟩

mutual

/-- An expression lies in what reaches over its tokens, part by part. -/
theorem Expr.nestedIn_of_readFrom : ∀ (e : Expr) {i j : Nat} {outer : Span},
    e.ReadFrom (Gauge.exact file source) i j → Reaches file source outer i j → e.NestedIn outer
  | .literal _ _, _, _, _, h, ho | .name _ _, _, _, _, h, ho | .this _ _, _, _, _, h, ho
  | .super _ _ _, _, _, _, h, ho => ho.contains h.1
  | .list elements _, _, _, _, ⟨hspan, m, hj, _, helements, _⟩, ho =>
    ⟨ho.contains hspan, exprsNestedIn_of_readFrom elements helements hspan.reaches⟩
  | .assign _ value _, _, _, _, ⟨hspan, _, _, hvalue⟩, ho =>
    ⟨ho.contains hspan, value.nestedIn_of_readFrom hvalue hspan.reaches⟩
  | .unary _ operand _, _, _, _, ⟨hspan, _, hoperand⟩, ho =>
    ⟨ho.contains hspan, operand.nestedIn_of_readFrom hoperand hspan.reaches⟩
  | .binary left _ right _, _, _, _, ⟨hspan, m, hleft, _, hright⟩, ho => by
    have := hleft.lt
    have := hright.lt
    exact ⟨ho.contains hspan, left.nestedIn_of_readFrom hleft hspan.reaches,
      right.nestedIn_of_readFrom hright hspan.reaches⟩
  | .logical left _ right _, _, _, _, ⟨hspan, m, hleft, _, hright⟩, ho => by
    have := hleft.lt
    have := hright.lt
    exact ⟨ho.contains hspan, left.nestedIn_of_readFrom hleft hspan.reaches,
      right.nestedIn_of_readFrom hright hspan.reaches⟩
  | .group inner _, _, _, _, ⟨hspan, m, hj, _, hinner, _⟩, ho =>
    ⟨ho.contains hspan, inner.nestedIn_of_readFrom hinner hspan.reaches⟩
  | .call callee args _, _, _, _, ⟨hspan, _, m, k, hj, hcallee, _, hargs, _⟩, ho => by
    have := hcallee.lt
    have := hargs.le
    exact ⟨ho.contains hspan, callee.nestedIn_of_readFrom hcallee hspan.reaches,
      exprsNestedIn_of_readFrom args hargs hspan.reaches⟩
  | .getField object _ _, _, _, _, ⟨hspan, m, hj, hobject, _⟩, ho =>
    ⟨ho.contains hspan, object.nestedIn_of_readFrom hobject hspan.reaches⟩
  | .setField object _ value _, _, _, _, ⟨hspan, m, hobject, _, _, _, hvalue⟩, ho => by
    have := hobject.lt
    have := hvalue.lt
    exact ⟨ho.contains hspan, object.nestedIn_of_readFrom hobject hspan.reaches,
      value.nestedIn_of_readFrom hvalue hspan.reaches⟩

theorem exprsNestedIn_of_readFrom : ∀ (es : List Expr) {i j : Nat} {outer : Span},
    exprsReadFrom (Gauge.exact file source) es i j → Reaches file source outer i j →
    exprsNestedIn es outer
  | [], _, _, _, _, _ => trivial
  | e :: es, _, _, _, ⟨m, he, hes⟩, ⟨a, b, houter, hi, hj⟩ => by
    have := he.lt
    have := hes.le
    exact ⟨e.nestedIn_of_readFrom he houter.reaches,
      exprsNestedIn_of_further es hes houter.reaches⟩

theorem exprsNestedIn_of_further : ∀ (es : List Expr) {i j : Nat} {outer : Span},
    furtherReadFrom (Gauge.exact file source) es i j → Reaches file source outer i j →
    exprsNestedIn es outer
  | [], _, _, _, _, _ => trivial
  | e :: es, _, _, _, ⟨_, m, he, hes⟩, ⟨a, b, houter, hi, hj⟩ => by
    have := he.lt
    have := hes.le
    exact ⟨e.nestedIn_of_readFrom he houter.reaches,
      exprsNestedIn_of_further es hes houter.reaches⟩

end

theorem optionNestedIn_of_readFrom {e : Option Expr}
    (h : optionReadFrom (Gauge.exact file source) e i j) (ho : Reaches file source outer i j) :
    ∀ x ∈ e, x.NestedIn outer := by
  rintro x ⟨⟩
  exact x.nestedIn_of_readFrom h ho

theorem VarReadFrom.nestedIn {name : String} {init : Option Expr} {span : Span}
    (h : VarReadFrom (Gauge.exact file source) name init span i j)
    (ho : Reaches file source outer i j) : outer.Contains span ∧ ∀ e ∈ init, e.NestedIn span := by
  obtain ⟨hspan, m, hj, -, -, hinit, -⟩ := h
  refine ⟨ho.contains hspan, ?_⟩
  rintro e ⟨⟩
  exact e.nestedIn_of_readFrom hinit.2 hspan.reaches

theorem ParenthesisedFrom.lt {e : Expr} (h : ParenthesisedFrom (Gauge.exact file source) e i j) :
    i < j := by
  obtain ⟨m, rfl, -, he, -⟩ := h
  have := he.lt
  omega

theorem ParenthesisedFrom.nestedIn {e : Expr}
    (h : ParenthesisedFrom (Gauge.exact file source) e i j) (ho : Reaches file source outer i j) :
    e.NestedIn outer := by
  obtain ⟨m, rfl, -, he, -⟩ := h
  obtain ⟨a, b, houter, hi, hj⟩ := ho
  exact e.nestedIn_of_readFrom he houter.reaches

theorem Item.InitialiserFrom.lt (h : x.InitialiserFrom (Gauge.exact file source) i j) : i < j := by
  cases x with
  | expr | var => exact And.left (b := ∃ _, _) h.1
  | block | ifThen | ifElse | «while» | «repeat» | «return» | «break» | «continue» | assert | assertFails
  | function | «class» => exact h.elim

theorem Item.InitialiserFrom.nestedIn (h : x.InitialiserFrom (Gauge.exact file source) i j)
    (ho : Reaches file source outer i j) : x.NestedIn outer := by
  cases x with
  | expr e span =>
    obtain ⟨hspan, m, hj, he, -⟩ := h
    exact ⟨ho.contains hspan, e.nestedIn_of_readFrom he hspan.reaches⟩
  | var => exact VarReadFrom.nestedIn h ho
  | block | ifThen | ifElse | «while» | «repeat» | «return» | «break» | «continue» | assert | assertFails
  | function | «class» => exact h.elim

theorem ForHeadFrom.lt {c : Expr} {increment : Option Expr}
    (h : ForHeadFrom (Gauge.exact file source) c increment k i j) : i < j := by
  obtain ⟨m, l, rfl, hc, -, hincrement, -⟩ := h
  have := hincrement.le
  rcases hc with hc | ⟨rfl, -⟩
  · have := hc.lt
    omega
  · omega

theorem Item.LoopFrom.lt (h : x.LoopFrom (Gauge.exact file source) k i j) : i < j := by
  cases x with
  | «while» c body increment span =>
    obtain ⟨-, m, hhead, -, hbody⟩ := h
    exact Nat.lt_trans hhead.lt hbody.lt
  | expr | var | block | ifThen | ifElse | «repeat» | «return» | «break» | «continue» | assert
  | assertFails | function | «class» => exact h.elim

/-- The condition of a `for` that has none lies at the keyword, which is one of its tokens, too. -/
theorem ForHeadFrom.nestedIn {c : Expr} {increment : Option Expr}
    (h : ForHeadFrom (Gauge.exact file source) c increment k i j) (hk : k < i)
    (ho : Reaches file source outer k j) :
    c.NestedIn outer ∧ ∀ e ∈ increment, e.NestedIn outer := by
  obtain ⟨m, l, rfl, hc, -, hincrement, -⟩ := h
  obtain ⟨a, b, houter, ha, hb⟩ := ho
  have := hincrement.le
  rcases hc with hc | ⟨rfl, span, rfl, hspan⟩
  · have := hc.lt
    exact ⟨c.nestedIn_of_readFrom hc houter.reaches,
      optionNestedIn_of_readFrom hincrement houter.reaches⟩
  · exact ⟨houter.contains hspan ha (by omega),
      optionNestedIn_of_readFrom hincrement houter.reaches⟩

mutual

/-- So does an item. -/
theorem Item.nestedIn_of_readFrom : ∀ (x : Item) {i j : Nat} {outer : Span},
    x.ReadFrom (Gauge.exact file source) i j → Reaches file source outer i j → x.NestedIn outer
  | .expr e _, i, j, _, ⟨hspan, m, hj, _, .inl ⟨_, he⟩⟩, ho =>
    ⟨ho.contains hspan, e.nestedIn_of_readFrom he hspan.reaches⟩
  | .expr _ _, i, j, _, ⟨hspan, _, _, _, .inr ⟨_, hnil⟩⟩, ho => by
    -- The empty statement and its `nil` have the same place.
    obtain rfl := hnil
    exact ⟨ho.contains hspan, hspan.contains hspan (by omega) (by omega)⟩
  | .var _ _ _, _, _, _, h, ho => VarReadFrom.nestedIn h ho
  | .block items _, i, j, _, ⟨hspan, .inl ⟨m, hj, _, hitems, _⟩⟩, ho =>
    ⟨ho.contains hspan, itemsNestedIn_of_readFrom items hitems hspan.reaches⟩
  | .block items _, i, j, _, ⟨hspan, .inr ⟨_, _, hitems⟩⟩, ho =>
    ⟨ho.contains hspan, itemsNestedIn_of_for items hitems (by omega) hspan.reaches⟩
  | .ifThen _ t _, i, j, _, ⟨hspan, m, _, hc, _, ht⟩, ho => by
    have := hc.lt
    have := ht.lt
    exact ⟨ho.contains hspan, hc.nestedIn hspan.reaches,
      t.nestedIn_of_readFrom ht hspan.reaches⟩
  | .ifElse _ t e _, i, j, _, ⟨hspan, m, k, _, hc, ⟨_, _, ht⟩, _, _, he⟩, ho => by
    have := hc.lt
    have := ht.lt
    have := he.lt
    exact ⟨ho.contains hspan, hc.nestedIn hspan.reaches,
      t.nestedIn_of_readFrom ht hspan.reaches,
      e.nestedIn_of_readFrom he hspan.reaches⟩
  | .while _ body _ _, i, j, _, ⟨hspan, m, .inl ⟨hincrement, _, hc⟩, _, hbody⟩, ho => by
    have := hc.lt
    have := hbody.lt
    exact ⟨ho.contains hspan, hc.nestedIn hspan.reaches,
      body.nestedIn_of_readFrom hbody hspan.reaches, hincrement ▸ nofun⟩
  | .while _ body _ _, i, j, _, ⟨hspan, m, .inr ⟨_, _, _, hhead⟩, _, hbody⟩, ho => by
    have := hhead.lt
    have := hbody.lt
    obtain ⟨hc, hincrement⟩ := hhead.nestedIn (by omega) hspan.reaches
    exact ⟨ho.contains hspan, hc, body.nestedIn_of_readFrom hbody hspan.reaches, hincrement⟩
  | .repeat _ body _, i, j, _, ⟨hspan, m, _, hcount, _, hbody⟩, ho => by
    have := hcount.lt
    have := hbody.lt
    exact ⟨ho.contains hspan, hcount.nestedIn hspan.reaches,
      body.nestedIn_of_readFrom hbody hspan.reaches⟩
  | .return _ _, i, j, _, ⟨hspan, m, hj, _, hvalue, _⟩, ho =>
    ⟨ho.contains hspan, optionNestedIn_of_readFrom hvalue hspan.reaches⟩
  | .break _, _, _, _, h, ho | .continue _, _, _, _, h, ho => ho.contains h.1
  | .assert c _ _, i, j, _, ⟨hspan, m, _, hc, hmessage⟩, ho => by
    have := hmessage.le
    exact ⟨ho.contains hspan, c.nestedIn_of_readFrom hc hspan.reaches⟩
  | .assertFails e _ _, i, j, _, ⟨hspan, m, _, _, he, hmessage⟩, ho => by
    have := hmessage.le
    exact ⟨ho.contains hspan, e.nestedIn_of_readFrom he hspan.reaches⟩
  | .function decl _, i, j, _, ⟨hspan, _, _, hdecl⟩, ho =>
    ⟨ho.contains hspan, decl.nestedIn_of_readFrom hdecl (by omega) hspan.reaches⟩
  | .class _ _ methods _, i, j, _, ⟨hspan, m, k, hj, _, _, hparent, _, hmethods, _⟩, ho => by
    have := hparent.le
    exact ⟨ho.contains hspan, methodsNestedIn_of_readFrom methods hmethods hspan.reaches⟩

theorem itemsNestedIn_of_readFrom : ∀ (xs : List Item) {i j : Nat} {outer : Span},
    itemsReadFrom (Gauge.exact file source) xs i j → Reaches file source outer i j →
    itemsNestedIn xs outer
  | [], _, _, _, _, _ => trivial
  | x :: xs, _, _, _, ⟨m, hx, hxs⟩, ⟨a, b, houter, hi, hj⟩ => by
    have := hx.lt
    have := hxs.le
    exact ⟨x.nestedIn_of_readFrom hx houter.reaches,
      itemsNestedIn_of_readFrom xs hxs houter.reaches⟩

theorem itemsNestedIn_of_for : ∀ (xs : List Item) {span : Span} {k i j : Nat} {outer : Span},
    forReadFrom (Gauge.exact file source) xs span k i j → k < i → Reaches file source outer k j →
    itemsNestedIn xs outer
  | [_, loop], _, k, i, j, _, ⟨m, hinit, _, hloop⟩, hk, ⟨a, b, houter, ha, hb⟩ => by
    -- The loop has the place of the whole statement, so it lies in the block, but not after `init`.
    have := hinit.lt
    have := hloop.lt
    exact ⟨hinit.nestedIn houter.reaches,
      loop.nestedIn_of_loopFrom hloop (by omega) houter.reaches, trivial⟩

theorem Item.nestedIn_of_loopFrom : ∀ (x : Item) {k i j : Nat} {outer : Span},
    x.LoopFrom (Gauge.exact file source) k i j → k < i → Reaches file source outer k j →
    x.NestedIn outer
  | .while _ body _ _, k, i, j, _, ⟨hspan, m, hhead, _, hbody⟩, hk, ho => by
    have := hhead.lt
    have := hbody.lt
    obtain ⟨hc, hincrement⟩ := hhead.nestedIn hk hspan.reaches
    exact ⟨ho.contains hspan, hc, body.nestedIn_of_readFrom hbody hspan.reaches, hincrement⟩

theorem FunctionDecl.nestedIn_of_readFrom : ∀ (d : FunctionDecl) {o i j : Nat} {outer : Span},
    d.ReadFrom (Gauge.exact file source) o i j → o ≤ i → Reaches file source outer o j →
    d.NestedIn outer
  | ⟨_, _, _, _, _, body, _⟩, o, i, j, _, h, hi, ho => by
    obtain ⟨hspan, -, m, k, hj, -, -, hparams, -, -, hbody, -⟩ := h
    have := hparams.le
    exact ⟨ho.contains hspan, itemsNestedIn_of_readFrom body hbody hspan.reaches⟩

theorem methodsNestedIn_of_readFrom : ∀ (ms : List FunctionDecl) {i j : Nat} {outer : Span},
    methodsReadFrom (Gauge.exact file source) ms i j → Reaches file source outer i j →
    methodsNestedIn ms outer
  | [], _, _, _, _, _ => trivial
  | d :: ds, _, _, _, ⟨m, ⟨_, hd⟩, hds⟩, ⟨a, b, houter, hi, hj⟩ => by
    have := hd.lt
    have := hds.le
    exact ⟨d.nestedIn_of_readFrom hd (Nat.le_refl _) houter.reaches,
      methodsNestedIn_of_readFrom ds hds houter.reaches⟩

end

end

/-- Every node of an accepted text has the place from its first token to its last one, and lies within
    the node around it. The two nodes of a `for` both have the place of the whole statement, and a
    condition that is left out has that of the keyword. -/
theorem parseText_places {r : Recovery} {unit : Nat} {file source : String} {items : List Item}
    (h : parseText r unit file source = .ok items) :
    itemsReadFrom (Gauge.exact file source) items 0 ((scan file source).length - 1)
      ∧ ∀ x ∈ items, x.NestedIn x.span := by
  have hread := parseText_readFrom (Gauge.exact file source) h
  refine ⟨hread, fun x hx => ?_⟩
  obtain ⟨i, j, hx⟩ := hread.exists_of_mem hx
  exact x.nestedIn_of_readFrom hx (Exactly.reaches hx.fits (Nat.le_refl i) (Nat.le_refl j))

/-- A loop whose initialiser calls a method, and whose condition is left out. -/
theorem parseText_places_for : ∃ items : List Item,
    parseText .resume 0 "a" "for (b.c(d).f = 1;; e = e + 1)\n  { }" = .ok items
      ∧ items.map Item.span = [⟨"a", ⟨1, 1⟩, ⟨2, 6⟩⟩]
      ∧ itemsReadFrom (Gauge.exact "a" "for (b.c(d).f = 1;; e = e + 1)\n  { }") items 0
        ((scan "a" "for (b.c(d).f = 1;; e = e + 1)\n  { }").length - 1)
      ∧ ∀ x ∈ items, x.NestedIn x.span := by
  have hspans : (parseText .resume 0 "a" "for (b.c(d).f = 1;; e = e + 1)\n  { }").toOption.map
      (·.map Item.span) = some [⟨"a", ⟨1, 1⟩, ⟨2, 6⟩⟩] := by
    decide +kernel
  obtain ⟨items, hparse, hspans⟩ := Option.map_eq_some_iff.1 hspans
  have hparse := Outcome.toOption_eq_some.1 hparse
  obtain ⟨hread, hnested⟩ := parseText_places hparse
  exact ⟨items, hparse, hspans, hread, hnested⟩

end Eleu
