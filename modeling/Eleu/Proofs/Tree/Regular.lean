import Eleu.Proofs.Tree.Accepted

/-! # The regularity of parsed trees

    What the resolver, the walker and the compiler may rely on in a tree that the parser has built, and
    what the types of trees do not show. All of it is checked somewhere on the way through the grammar,
    so it follows from how the tree was read (`Item.ReadFrom`), by going down the tree
    (`Item.regular_of_readFrom`).

    A block that a `for` stands for is told from one in braces by its loop, which has the place of the
    whole statement. -/

namespace Eleu

/-! ## Expressions -/

mutual

/-- Names are no keywords, numbers are finite, and calls have at most 255 arguments. -/
def Expr.Regular : Expr → Prop
  | .literal value _ => value.Finite
  | .list elements _ => exprsRegular elements
  | .name ident _ => Nameable ident.name
  | .assign target value _ => Nameable target.name ∧ value.Regular
  | .unary _ operand _ => operand.Regular
  | .binary left _ right _ => left.Regular ∧ right.Regular
  | .logical left _ right _ => left.Regular ∧ right.Regular
  | .group inner _ => inner.Regular
  | .call callee args _ => callee.Regular ∧ args.length ≤ 255 ∧ exprsRegular args
  | .getField object field _ => object.Regular ∧ Nameable field
  | .setField object field value _ => object.Regular ∧ Nameable field ∧ value.Regular
  | .this ident _ => ident.name = "this"
  | .super ident method _ => ident.name = "super" ∧ Nameable method

/-- All of the expressions are regular. -/
def exprsRegular : List Expr → Prop
  | [] => True
  | e :: es => e.Regular ∧ exprsRegular es

end

/-! ## Items -/

/-- The loop that a `while` or a `for` stands for. -/
def Item.isLoop : Item → Bool
  | .while _ _ _ _ => true
  | _ => false

/-- The initialiser of a `for` may be an expression of any kind. -/
def Item.InitialiserRegular : Item → Prop
  | .expr e _ => e.Regular
  | .var name init _ => Nameable name ∧ ∀ e ∈ init, e.Regular
  | _ => False

mutual

/-- Bodies are statements and not empty, except after `else`; an `else` belongs to the nearest `if`; an
    expression is a statement only if it does something, or as the `nil` of the empty statement; and
    declarations have names that are no keywords, at most 255 parameters, and their own kind. -/
def Item.Regular : Item → Prop
  | .expr e span => (Parser.standsAlone e = true ∨ e = .literal .nil span) ∧ e.Regular
  | .var name init _ => Nameable name ∧ ∀ e ∈ init, e.Regular
  | .block items span => itemsRegular items ∨ forRegular items span
  | .ifThen c t _ => c.Regular ∧ t.IsBody ∧ t.Regular
  | .ifElse c t e _ =>
    c.Regular ∧ (t.IsBody ∧ t.isOpen = false ∧ t.Regular) ∧ e.isDeclaration = false ∧ e.Regular
  | .while c body increment _ => c.Regular ∧ (∀ e ∈ increment, e.Regular) ∧ body.IsBody ∧ body.Regular
  | .repeat count body _ => count.Regular ∧ body.IsBody ∧ body.Regular
  | .return value _ => ∀ e ∈ value, e.Regular
  | .break _ => True
  | .continue _ => True
  | .assert c _ _ => c.Regular
  | .assertFails e _ _ => e.Regular
  | .function decl _ => decl.kind = .function ∧ decl.Regular
  | .class name parent methods _ =>
    Nameable name ∧ (∀ p ∈ parent, Nameable p.name) ∧ methodsRegular methods

/-- All of the items are regular. -/
def itemsRegular : List Item → Prop
  | [] => True
  | x :: xs => x.Regular ∧ itemsRegular xs

/-- The two items of a `for` with an initialiser. -/
def forRegular : List Item → Span → Prop
  | [init, loop], span =>
    init.InitialiserRegular ∧ loop.isLoop = true ∧ loop.span = span ∧ loop.Regular
  | _, _ => False

/-- A function or method is regular, whichever it is. -/
def FunctionDecl.Regular : FunctionDecl → Prop
  | ⟨_, _, _, name, params, body, _⟩ =>
    Nameable name ∧ params.length ≤ 255 ∧ (∀ p ∈ params, Nameable p) ∧ itemsRegular body

/-- All of the methods are regular. -/
def methodsRegular : List FunctionDecl → Prop
  | [] => True
  | m :: ms => (m.kind = .method ∧ m.Regular) ∧ methodsRegular ms

end

theorem FunctionDecl.Regular.name {d : FunctionDecl} (h : d.Regular) : Nameable d.name := by
  cases d
  exact h.1

/-! ## Trees that were read -/

variable {tokens : List Token} {G : Gauge tokens}

theorem ShownAt.nameable {i : Nat} {name : String} (h : ShownAt tokens i (.text .name name))
    (hproper : ∀ t ∈ tokens, t.Proper) : Nameable name := by
  obtain ⟨t, ht, hkind, rfl⟩ := h
  exact hproper t (List.mem_of_getElem? ht) hkind

mutual

theorem Expr.regular_of_readFrom (hproper : ∀ t ∈ tokens, t.Proper) :
    ∀ (e : Expr) {i j : Nat}, e.ReadFrom G i j → e.Regular
  | .literal (.number _) _, _, _, h => h.2.2.2
  | .literal (.string _) _, _, _, _ | .literal (.bool _) _, _, _, _ | .literal .nil _, _, _, _ => trivial
  | .list elements _, _, _, ⟨_, _, _, _, helements, _⟩ =>
    exprsRegular_of_readFrom hproper elements helements
  | .name _ _, _, _, ⟨_, _, hname⟩ => hname.nameable hproper
  | .assign _ value _, _, _, ⟨_, hname, _, hvalue⟩ =>
    ⟨hname.nameable hproper, value.regular_of_readFrom hproper hvalue⟩
  | .unary _ operand _, _, _, ⟨_, _, hoperand⟩ => operand.regular_of_readFrom hproper hoperand
  | .binary left _ right _, _, _, ⟨_, _, hleft, _, hright⟩ =>
    ⟨left.regular_of_readFrom hproper hleft, right.regular_of_readFrom hproper hright⟩
  | .logical left _ right _, _, _, ⟨_, _, hleft, _, hright⟩ =>
    ⟨left.regular_of_readFrom hproper hleft, right.regular_of_readFrom hproper hright⟩
  | .group inner _, _, _, ⟨_, _, _, _, hinner, _⟩ => inner.regular_of_readFrom hproper hinner
  | .call callee args _, _, _, ⟨_, hlength, _, _, _, hcallee, _, hargs, _⟩ =>
    ⟨callee.regular_of_readFrom hproper hcallee, hlength, exprsRegular_of_readFrom hproper args hargs⟩
  | .getField object _ _, _, _, ⟨_, _, _, hobject, _, hfield⟩ =>
    ⟨object.regular_of_readFrom hproper hobject, hfield.nameable hproper⟩
  | .setField object _ value _, _, _, ⟨_, _, hobject, _, hfield, _, hvalue⟩ =>
    ⟨object.regular_of_readFrom hproper hobject, hfield.nameable hproper,
      value.regular_of_readFrom hproper hvalue⟩
  | .this _ _, _, _, ⟨_, _, _, hname⟩ => hname
  | .super _ _ _, _, _, ⟨_, _, _, _, hmethod, hname⟩ => ⟨hname, hmethod.nameable hproper⟩

theorem exprsRegular_of_readFrom (hproper : ∀ t ∈ tokens, t.Proper) :
    ∀ (es : List Expr) {i j : Nat}, exprsReadFrom G es i j → exprsRegular es
  | [], _, _, _ => trivial
  | e :: es, _, _, ⟨_, he, hes⟩ =>
    ⟨e.regular_of_readFrom hproper he, exprsRegular_of_further hproper es hes⟩

theorem exprsRegular_of_further (hproper : ∀ t ∈ tokens, t.Proper) :
    ∀ (es : List Expr) {i j : Nat}, furtherReadFrom G es i j → exprsRegular es
  | [], _, _, _ => trivial
  | e :: es, _, _, ⟨_, _, he, hes⟩ =>
    ⟨e.regular_of_readFrom hproper he, exprsRegular_of_further hproper es hes⟩

end

section

variable (hproper : ∀ t ∈ tokens, t.Proper) {i j : Nat}

include hproper

theorem optionRegular_of_readFrom {e : Option Expr} (h : optionReadFrom G e i j) :
    ∀ x ∈ e, x.Regular := by
  rintro x ⟨⟩
  exact x.regular_of_readFrom hproper h

theorem ParenthesisedFrom.regular {e : Expr} (h : ParenthesisedFrom G e i j) : e.Regular := by
  obtain ⟨m, -, -, he, -⟩ := h
  exact e.regular_of_readFrom hproper he

theorem VarReadFrom.regular {name : String} {init : Option Expr} {span : Span}
    (h : VarReadFrom G name init span i j) : Nameable name ∧ ∀ e ∈ init, e.Regular := by
  obtain ⟨-, m, -, -, hname, hinit, -⟩ := h
  refine ⟨hname.nameable hproper, ?_⟩
  rintro e ⟨⟩
  exact e.regular_of_readFrom hproper hinit.2

theorem Item.InitialiserFrom.regular {x : Item} (h : x.InitialiserFrom G i j) :
    x.InitialiserRegular := by
  cases x with
  | expr e span =>
    obtain ⟨-, m, -, he, -⟩ := h
    exact e.regular_of_readFrom hproper he
  | var => exact VarReadFrom.regular hproper h
  | block | ifThen | ifElse | «while» | «repeat» | «return» | «break» | «continue» | assert | assertFails
  | function | «class» => exact h.elim

/-- The condition of a `for` that has none is as regular as any other. -/
theorem ForHeadFrom.regular {c : Expr} {increment : Option Expr} {k : Nat}
    (h : ForHeadFrom G c increment k i j) : c.Regular ∧ ∀ e ∈ increment, e.Regular := by
  obtain ⟨a, b, -, hc, -, hincrement, -⟩ := h
  refine ⟨?_, optionRegular_of_readFrom hproper hincrement⟩
  rcases hc with hc | ⟨-, span, rfl, -⟩
  · exact c.regular_of_readFrom hproper hc
  · exact trivial

theorem furtherParamsFrom.nameable {ps : List String} (h : furtherParamsFrom tokens ps i j) :
    ∀ p ∈ ps, Nameable p := by
  induction ps generalizing i with
  | nil => exact fun p hp => nomatch hp
  | cons p ps ih =>
    obtain ⟨-, hp, hps⟩ := h
    exact List.forall_mem_cons.2 ⟨hp.nameable hproper, ih hps⟩

theorem paramsReadFrom.nameable {ps : List String} (h : paramsReadFrom tokens ps i j) :
    ∀ p ∈ ps, Nameable p := by
  cases ps with
  | nil => exact fun p hp => nomatch hp
  | cons p ps =>
    obtain ⟨hp, hps⟩ := h
    exact List.forall_mem_cons.2 ⟨hp.nameable hproper, hps.nameable hproper⟩

end

mutual

theorem Item.regular_of_readFrom (hproper : ∀ t ∈ tokens, t.Proper) :
    ∀ (x : Item) {i j : Nat}, x.ReadFrom G i j → x.Regular
  | .expr e span, _, _, ⟨_, _, _, _, .inl ⟨hstands, he⟩⟩ =>
    ⟨.inl hstands, e.regular_of_readFrom hproper he⟩
  | .expr _ _, _, _, ⟨_, _, _, _, .inr ⟨_, hnil⟩⟩ => ⟨.inr hnil, hnil ▸ trivial⟩
  | .var _ _ _, _, _, h => VarReadFrom.regular hproper h
  | .block items _, _, _, ⟨_, .inl ⟨_, _, _, hitems, _⟩⟩ =>
    .inl (itemsRegular_of_readFrom hproper items hitems)
  | .block items _, _, _, ⟨_, .inr ⟨_, _, hitems⟩⟩ => .inr (forRegular_of_readFrom hproper items hitems)
  | .ifThen _ t _, _, _, ⟨_, _, _, hc, hbody, ht⟩ =>
    ⟨hc.regular hproper, hbody, t.regular_of_readFrom hproper ht⟩
  | .ifElse _ t e _, _, _, ⟨_, _, _, _, hc, ⟨hbody, hopen, ht⟩, _, hplain, he⟩ =>
    ⟨hc.regular hproper, ⟨hbody, hopen, t.regular_of_readFrom hproper ht⟩, hplain,
      e.regular_of_readFrom hproper he⟩
  | .while _ body _ _, _, _, ⟨_, _, .inl ⟨hincrement, _, hc⟩, hbody, hread⟩ =>
    ⟨hc.regular hproper, hincrement ▸ nofun, hbody, body.regular_of_readFrom hproper hread⟩
  | .while _ body _ _, _, _, ⟨_, _, .inr ⟨_, _, _, hhead⟩, hbody, hread⟩ =>
    ⟨(hhead.regular hproper).1, (hhead.regular hproper).2, hbody, body.regular_of_readFrom hproper hread⟩
  | .repeat _ body _, _, _, ⟨_, _, _, hcount, hbody, hread⟩ =>
    ⟨hcount.regular hproper, hbody, body.regular_of_readFrom hproper hread⟩
  | .return _ _, _, _, ⟨_, _, _, _, hvalue, _⟩ => optionRegular_of_readFrom hproper hvalue
  | .break _, _, _, _ | .continue _, _, _, _ => trivial
  | .assert c _ _, _, _, ⟨_, _, _, hc, _⟩ => c.regular_of_readFrom hproper hc
  | .assertFails e _ _, _, _, ⟨_, _, _, _, he, _⟩ => e.regular_of_readFrom hproper he
  | .function decl _, _, _, ⟨_, _, hkind, hdecl⟩ => ⟨hkind, decl.regular_of_readFrom hproper hdecl⟩
  | .class _ parent methods _, _, _, ⟨_, _, _, _, _, hname, hparent, _, hmethods, _⟩ => by
    refine ⟨hname.nameable hproper, ?_, methodsRegular_of_readFrom hproper methods hmethods⟩
    rintro p ⟨⟩
    exact hparent.2.2.nameable hproper

theorem itemsRegular_of_readFrom (hproper : ∀ t ∈ tokens, t.Proper) :
    ∀ (xs : List Item) {i j : Nat}, itemsReadFrom G xs i j → itemsRegular xs
  | [], _, _, _ => trivial
  | x :: xs, _, _, ⟨_, hx, hxs⟩ =>
    ⟨x.regular_of_readFrom hproper hx, itemsRegular_of_readFrom hproper xs hxs⟩

theorem forRegular_of_readFrom (hproper : ∀ t ∈ tokens, t.Proper) :
    ∀ (xs : List Item) {span : Span} {k i j : Nat}, forReadFrom G xs span k i j → forRegular xs span
  | [_, loop], _, _, _, _, ⟨_, hinit, hspan, hloop⟩ =>
    ⟨hinit.regular hproper, (loop.regular_of_loopFrom hproper hloop).1, hspan,
      (loop.regular_of_loopFrom hproper hloop).2⟩

theorem Item.regular_of_loopFrom (hproper : ∀ t ∈ tokens, t.Proper) :
    ∀ (x : Item) {k i j : Nat}, x.LoopFrom G k i j → x.isLoop = true ∧ x.Regular
  | .while _ body _ _, _, _, _, ⟨_, _, hhead, hbody, hread⟩ =>
    ⟨rfl, (hhead.regular hproper).1, (hhead.regular hproper).2, hbody,
      body.regular_of_readFrom hproper hread⟩

theorem FunctionDecl.regular_of_readFrom (hproper : ∀ t ∈ tokens, t.Proper) :
    ∀ (d : FunctionDecl) {o i j : Nat}, d.ReadFrom G o i j → d.Regular
  | ⟨_, _, _, _, _, body, _⟩, _, _, _, ⟨_, hlength, _, _, _, hname, _, hparams, _, _, hbody, _⟩ =>
    ⟨hname.nameable hproper, hlength, paramsReadFrom.nameable hproper hparams,
      itemsRegular_of_readFrom hproper body hbody⟩

theorem methodsRegular_of_readFrom (hproper : ∀ t ∈ tokens, t.Proper) :
    ∀ (ms : List FunctionDecl) {i j : Nat}, methodsReadFrom G ms i j → methodsRegular ms
  | [], _, _, _ => trivial
  | m :: ms, _, _, ⟨_, ⟨hkind, hm⟩, hms⟩ =>
    ⟨⟨hkind, m.regular_of_readFrom hproper hm⟩, methodsRegular_of_readFrom hproper ms hms⟩

end

/-! ## Blocks -/

theorem Item.undeclared {i : Item} (h : i.isDeclaration = false) : i.declared? = none := by
  cases i with
  | var | function | «class» => cases h
  | _ => rfl

/-- What may stand in a block: an item, or the initialiser of a `for` that would not stand alone. -/
def Item.Placeable (i : Item) : Prop := i.Regular ∨ ∃ e span, i = .expr e span ∧ e.Regular

theorem itemsRegular.placeable : ∀ {is : List Item}, itemsRegular is → ∀ i ∈ is, i.Placeable
  | [], _ => List.forall_mem_nil _
  | _ :: _, h => List.forall_mem_cons.2 ⟨.inl h.1, itemsRegular.placeable h.2⟩

theorem Item.InitialiserRegular.placeable {i : Item} (h : i.InitialiserRegular) : i.Placeable := by
  cases i with
  | expr e span => exact .inr ⟨e, span, rfl, h⟩
  | var => exact .inl h
  | _ => exact h.elim

/-- Whichever kind of block it is. -/
theorem Item.Regular.placeable {is : List Item} {span : Span} (h : (Item.block is span).Regular) :
    ∀ i ∈ is, i.Placeable := by
  rcases h with h | h
  · exact h.placeable
  · match is, h with
    | [_, _], h =>
      exact List.forall_mem_cons.2 ⟨h.1.placeable, List.forall_mem_singleton.2 (.inl h.2.2.2)⟩

/-! ## Accepted texts -/

/-- What the parser builds of a source text is regular, and no two ids in it are the same. -/
theorem parseText_tree {r : Recovery} {unit : Nat} {file source : String} {items : List Item}
    (h : parseText r unit file source = .ok items) :
    itemsRegular items ∧ (itemsIds items).Nodup := by
  obtain ⟨_, _, _, -, -, htaken⟩ := parseText_taken (Gauge.any _) h
  exact ⟨itemsRegular_of_readFrom (scan_proper file source) items htaken.read, htaken.ids.nodup⟩

/-- The items of an accepted text are regular, and so are all their parts. -/
theorem parseText_regular {r : Recovery} {unit : Nat} {file source : String} {items : List Item}
    (h : parseText r unit file source = .ok items) : itemsRegular items :=
  (parseText_tree h).1

/-- The `else` with an empty body belongs to the inner `if`, so the outer one is open. The loop after it
    starts with an expression that could not stand alone. -/
theorem parseText_regular_nested : ∃ items : List Item,
    parseText .resume 0 "" "if (a) if (b) f(); else; for (1; a;) f();" = .ok items
      ∧ items.map Item.isOpen = [true, false] ∧ itemsRegular items := by
  have hopen : (parseText .resume 0 "" "if (a) if (b) f(); else; for (1; a;) f();").toOption.map
      (·.map Item.isOpen) = some [true, false] := by
    decide +kernel
  obtain ⟨items, hparse, hopen⟩ := Option.map_eq_some_iff.1 hopen
  have hparse := Outcome.toOption_eq_some.1 hparse
  exact ⟨items, hparse, hopen, parseText_regular hparse⟩

end Eleu
