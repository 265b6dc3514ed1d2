import Eleu.Proofs.Scope.Analysis

/-! # What the resolver has checked

    The resolver is the analysis by standpoints (`resolve_eq_analyse`), so what it has checked can be
    read off the sightings of a program: none of them is at fault, and since no two references have the
    same id, the table has the distance of each (`Noted`). A standpoint has the scopes of the
    context of its place (`Standpoint.At`), so that a distance there is the one that the context
    gives. `resolve_noted` says that a regular program that is not refused follows the rules
    `Rules.resolved` with the distances of the table. -/

namespace Eleu

variable {name : String} {σ : Standpoint} {program : List Item} {d : Distances}

/-! ## References -/

mutual

/-- The references in an expression. -/
def Expr.references (p : Option String) (Γ : Context) : Expr → List Reference
  | .literal _ _ => []
  | .list elements _ => exprsReferences p Γ elements
  | .name ident span => [⟨ident, span, Γ, p⟩]
  | .assign target value span => ⟨target, span, Γ, p⟩ :: value.references p Γ
  | .unary _ operand _ => operand.references p Γ
  | .binary left _ right _ => left.references p Γ ++ right.references p Γ
  | .logical left _ right _ => left.references p Γ ++ right.references p Γ
  | .group inner _ => inner.references p Γ
  | .call callee args _ => callee.references p Γ ++ exprsReferences p Γ args
  | .getField object _ _ => object.references p Γ
  | .setField object _ value _ => object.references p Γ ++ value.references p Γ
  | .this ident span => [⟨ident, span, Γ, p⟩]
  | .super ident _ span => [⟨ident, span, Γ, p⟩]

/-- The references in expressions. -/
def exprsReferences (p : Option String) (Γ : Context) : List Expr → List Reference
  | [] => []
  | e :: es => e.references p Γ ++ exprsReferences p Γ es

end

/-- The references in an expression that may be missing. -/
def optionReferences (p : Option String) (Γ : Context) : Option Expr → List Reference
  | none => []
  | some e => e.references p Γ

mutual

/-- The references in an item, and in all functions declared there. -/
def Item.references (Γ : Context) : Item → List Reference
  | .expr e _ => e.references none Γ
  | .var name init _ => optionReferences (some name) Γ init
  | .block items span => itemsReferences ({ site := .block span } :: Γ) items
  | .ifThen c t _ => c.references none Γ ++ t.references Γ
  | .ifElse c t e _ => c.references none Γ ++ (t.references Γ ++ e.references Γ)
  | .while c body increment _ =>
    c.references none Γ ++ (body.references Γ ++ optionReferences none Γ increment)
  | .repeat count body _ => count.references none Γ ++ body.references Γ
  | .return value _ => optionReferences none Γ value
  | .break _ => []
  | .continue _ => []
  | .assert c _ _ => c.references none Γ
  | .assertFails e _ _ => e.references none Γ
  | .function decl _ => decl.references (Γ.declare decl.name)
  | .class name parent methods span =>
    (parent.map (⟨·, span, Γ, none⟩)).toList
      ++ methodsReferences (Context.ofMethods parent.isSome span (Γ.declare name)) methods

/-- The references in items. -/
def itemsReferences : Context → List Item → List Reference
  | _, [] => []
  | Γ, i :: is => i.references Γ ++ itemsReferences (i.after Γ) is

/-- The references in a function. -/
def FunctionDecl.references (Γ : Context) : FunctionDecl → List Reference
  | ⟨_, id, _, _, params, body, _⟩ =>
    itemsReferences ({ site := .function id, names := params } :: Γ) body

/-- The references in methods. -/
def methodsReferences (Γ : Context) : List FunctionDecl → List Reference
  | [] => []
  | m :: ms => m.references Γ ++ methodsReferences Γ ms

end

/-- The rules of a resolved program with the declarations `D` and the references `T`: a distance is the
    one that the context gives, and methods stand in the scope of `this`. In the initialiser of a
    local variable, an assignment to the variable itself has the distance zero, although the name is
    not declared yet. If `new` holds, a name is declared only once in a scope that is tracked. -/
def Rules.resolved (D : List FunctionDecl) (T : List Reference) (new : Prop := False) : Rules where
  known decl Γ := decl ∈ D ∧ (decl.kind = .method → Γ.distance? "this" = some 0)
  reads r depth := r ∈ T ∧ depth = r.context.distance? r.ident.name
  writes r depth :=
    r ∈ T ∧ depth =
      if r.pending = some r.ident.name ∧ r.context ≠ [] then some 0
      else r.context.distance? r.ident.name
  supers r depth :=
    r ∈ T ∧ r.ident.name = "super" ∧ ∃ n span, depth = some (n + 1)
      ∧ r.context[n]? = some { site := .this, names := ["this"] }
      ∧ r.context[n + 1]? = some { site := .super span, names := ["super"] }
  returns Γ n := Γ.distance? "this" = some n
  declares Γ name := ¬ Reserved name ∧ (new → ∀ scope ∈ Γ.head?, name ∉ scope.names)
  named h := h.1

/-! ## Subclasses -/

/-- Inside a class with a superclass, the scopes up to those of `this` and `super` bind no reserved
    name. -/
def InClass : Option ClassRole → Context → Prop
  | some .subclass, Γ => ∃ inner span outer, inner ≠ []
      ∧ Γ = inner ++ { site := .this, names := ["this"] }
        :: { site := .super span, names := ["super"] } :: outer
      ∧ ∀ st ∈ inner, ∀ name ∈ st.names, ¬ Reserved name
  | _, _ => True

namespace InClass

variable {role : Option ClassRole} {Γ : Context}

theorem cons (h : InClass role Γ) {st : StaticScope} (hst : ∀ name ∈ st.names, ¬ Reserved name) :
    InClass role (st :: Γ) := by
  match role, h with
  | none, _ => trivial
  | some .base, _ => trivial
  | some .subclass, ⟨inner, span, outer, _, hΓ, hn⟩ =>
    refine ⟨st :: inner, span, outer, by simp, by rw [hΓ, List.cons_append], ?_⟩
    intro s hs
    cases hs with
    | head => exact hst
    | tail _ hs => exact hn s hs

theorem declare (h : InClass role Γ) (hname : ¬ Reserved name) : InClass role (Γ.declare name) := by
  match role, h with
  | none, _ => trivial
  | some .base, _ => trivial
  | some .subclass, ⟨[], span, outer, hne, _⟩ => exact absurd rfl hne
  | some .subclass, ⟨st :: inner, span, outer, _, hΓ, hn⟩ =>
    refine ⟨{ st with names := name :: st.names } :: inner, span, outer, by simp,
      by rw [hΓ]; rfl, ?_⟩
    intro s hs
    cases hs with
    | head =>
      intro other hother
      cases hother with
      | head => exact hname
      | tail _ hother => exact hn st (.head _) other hother
    | tail _ hs => exact hn s (.tail _ hs)

/-- `super` is found where the class has put it, right outside `this`. -/
theorem distance_super (h : InClass (some .subclass) Γ) :
    ∃ n span, Γ.distance? "super" = some (n + 1)
      ∧ Γ[n]? = some { site := .this, names := ["this"] }
      ∧ Γ[n + 1]? = some { site := .super span, names := ["super"] } := by
  obtain ⟨inner, span, outer, -, rfl, hn⟩ := h
  refine ⟨inner.length, span, ?_, by simp, by simp⟩
  induction inner with
  | nil => rfl
  | cons st inner ih =>
    have hst : "super" ∉ st.names := fun h => hn st (.head _) "super" h (.inr rfl)
    rw [List.cons_append, Context.distance?, if_neg hst, ih fun s hs => hn s (.tail _ hs)]
    rfl

end InClass

/-- A class with a superclass puts `super` and `this` right around its methods. -/
theorem InClass.ofMethods (subclass : Bool) (span : Span) (Γ : Context) {st : StaticScope}
    (hst : ∀ name ∈ st.names, ¬ Reserved name) :
    InClass (some (if subclass then .subclass else .base)) (st :: Context.ofMethods subclass span Γ) := by
  cases subclass with
  | false => trivial
  | true =>
    refine ⟨[st], span, Γ, by simp, rfl, ?_⟩
    intro s hs
    rw [List.mem_singleton.1 hs]
    exact hst

/-- Methods find `this` in the innermost scope. -/
theorem Context.distance_this_ofMethods (subclass : Bool) (span : Span) (Γ : Context) :
    (Context.ofMethods subclass span Γ).distance? "this" = some 0 := by
  cases subclass <;> rfl

/-! ## Standpoints at contexts -/

theorem Context.distance?_declare_of_ne {Γ : Context} {other : String} (h : other ≠ name) :
    (Γ.declare name).distance? other = Γ.distance? other := by
  cases Γ with
  | nil => rfl
  | cons st Γ => simp [Context.declare, Context.distance?, h]

/-- The scope is seen with the names of the static one. -/
def OpenScope.Shows (scope : OpenScope) (st : StaticScope) : Prop :=
  ∀ name, name ∈ scope.names ↔ name ∈ st.names

/-- The open scopes are those of the context. -/
abbrev Shown (scopes : List OpenScope) (Γ : Context) : Prop := List.Forall₂ OpenScope.Shows scopes Γ

namespace Shown

variable {scopes : List OpenScope} {Γ : Context}

/-- A distance is that of the context. -/
theorem distance (h : Shown scopes Γ) (name : String) :
    scopes.findIdx? (name ∈ ·.names) = Γ.distance? name := by
  induction h with
  | nil => rfl
  | @cons scope st scopes Γ hfirst _ ih =>
    rw [List.findIdx?_cons, Context.distance?, ih]
    by_cases hn : name ∈ st.names
    · rw [if_pos (decide_eq_true ((hfirst name).2 hn)), if_pos hn]
    · rw [if_neg (by simpa using fun hc => hn ((hfirst name).1 hc)), if_neg hn]

/-- A name is added to the innermost scope, ready or not. -/
theorem declare (h : Shown scopes Γ) {g : OpenScope → OpenScope}
    (hg : ∀ s, (g s).names = name :: s.names) : Shown (scopes.modifyHead g) (Γ.declare name) := by
  cases h with
  | nil => exact .nil
  | @cons scope st _ _ hfirst hrest =>
    refine .cons (fun other => ?_) hrest
    rw [hg, List.mem_cons, List.mem_cons, hfirst]

/-- The parameters are the first names of the scope of a function. -/
theorem defineAll {site : Site} {names : List String} (params : List String)
    (h : Shown σ.scopes ({ site, names } :: Γ)) :
    Shown (σ.defineAll params).scopes ({ site, names := params ++ names } :: Γ) := by
  induction params generalizing σ names with
  | nil => exact h
  | cons name params ih =>
    have hrest : Shown ((σ.define name).defineAll params).scopes
        ({ site, names := params ++ name :: names } :: Γ) := ih (h.declare fun _ => rfl)
    rw [Standpoint.defineAll]
    generalize ((σ.define name).defineAll params).scopes = scopes at hrest ⊢
    cases hrest with
    | cons hfirst houter =>
      refine .cons (fun other => (hfirst other).trans ?_) houter
      simp only [List.mem_append, List.mem_cons]
      tauto

theorem inClass (h : Shown σ.scopes Γ) (subclass : Bool) (span : Span) :
    Shown (σ.inClass subclass span).scopes (Context.ofMethods subclass span Γ) := by
  have hsame : ∀ {site : Site} {name : String} {unready : List String},
      OpenScope.Shows { site, names := [name], unready } { site, names := [name] } := fun _ => .rfl
  cases subclass with
  | false => exact .cons hsame h
  | true => exact .cons hsame (.cons hsame h)

end Shown

/-- The standpoint is at a place with the context `Γ`, in the initialiser of `p` if there is one. -/
structure Standpoint.At (σ : Standpoint) (p : Option String) (Γ : Context) : Prop where
  scopes : Shown σ.scopes (p.elim Γ (Context.declare · Γ))
  unready : ∀ name ∈ p, ∀ scope ∈ σ.scopes.head?, name ∈ scope.unready
  inClass : InClass σ.classRole Γ
  pending : ∀ name ∈ p, ¬ Reserved name
  plain : Γ.Plain

namespace Standpoint.At

variable {σ : Standpoint} {p : Option String} {Γ : Context}

/-- Outside initialisers there is nothing to wait for. -/
theorem ready (hs : Shown σ.scopes Γ) (hc : InClass σ.classRole Γ) (hp : Γ.Plain) : σ.At none Γ :=
  ⟨hs, nofun, hc, nofun, hp⟩

/-- In an initialiser, the variable itself is found in the innermost scope. -/
theorem distance (h : σ.At p Γ) (name : String) :
    σ.distance? name = if p = some name ∧ Γ ≠ [] then some 0 else Γ.distance? name := by
  have hdistance : σ.distance? name = _ := h.scopes.distance name
  rw [hdistance]
  cases p with
  | none => exact (if_neg fun hp => nomatch hp.1).symm
  | some q =>
    show (Γ.declare q).distance? name = _
    by_cases hq : q = name
    · subst hq
      cases Γ <;> simp [Context.declare, Context.distance?]
    · rw [Context.distance?_declare_of_ne (Ne.symm hq), if_neg fun hp => hq (Option.some.inj hp.1)]

/-- What is no reference to the variable whose initialiser is being read has the distance of the
    context. -/
theorem distance_of_ne (h : σ.At p Γ) (hp : p ≠ some name) :
    σ.distance? name = Γ.distance? name := by rw [h.distance, if_neg fun hc => hp hc.1]

/-- A variable that may be read is ready or global. -/
theorem distance_read (h : σ.At p Γ) {ident : Ident} {span : Span}
    (hf : Sighting.fault? ⟨σ, .reads ident span⟩ = none) :
    σ.distance? ident.name = Γ.distance? ident.name := by
  rw [h.distance]
  split
  · rename_i hp
    have hscopes := h.scopes
    rw [hp.1] at hscopes
    cases hσ : σ.scopes with
    | nil =>
      rw [hσ] at hscopes
      cases Γ with
      | nil => exact absurd rfl hp.2
      | cons st Γ => cases hscopes
    | cons scope outer =>
      have hmem : ident.name ∈ scope.unready :=
        h.unready ident.name hp.1 scope (by rw [hσ]; rfl)
      simp [Sighting.fault?, Sighting.innermost, hσ, hmem] at hf
  · rfl

/-- `this` and `super` are no variables with an initialiser. -/
theorem distance_reserved (h : σ.At p Γ) (hname : Reserved name) :
    σ.distance? name = Γ.distance? name :=
  h.distance_of_ne fun hp => h.pending name hp hname

theorem declare (h : σ.At none Γ) (hname : ¬ Reserved name) :
    (σ.declare name).At (some name) Γ := by
  refine ⟨Shown.declare h.scopes fun _ => rfl, fun q hq scope hscope => ?_, h.inClass, fun q hq => ?_,
    h.plain⟩
  · cases hq
    cases hσ : σ.scopes with
    | nil =>
      rw [Standpoint.declare, hσ] at hscope
      cases hscope
    | cons first outer =>
      rw [Standpoint.declare, hσ] at hscope
      cases hscope
      exact .head _
  · cases hq
    exact hname

theorem define (h : σ.At none Γ) (hname : ¬ Reserved name) :
    (σ.define name).At none (Γ.declare name) :=
  ready (Shown.declare h.scopes fun _ => rfl) (h.inClass.declare hname) (Context.plain_declare.2 h.plain)

theorem enter (h : σ.At none Γ) (span : Span) :
    (σ.enter (.block span)).At none ({ site := .block span } :: Γ) :=
  ready (.cons (fun _ => .rfl) h.scopes) (h.inClass.cons nofun) (by rintro - ⟨⟩; nofun)

theorem inLoop (h : σ.At none Γ) : σ.inLoop.At none Γ := ready h.scopes h.inClass h.plain

/-- A name that may be declared is new in the innermost scope. -/
theorem declares (h : σ.At none Γ) {span : Span} (hn : ¬ Reserved name)
    (hf : Sighting.fault? ⟨σ, .declares name span⟩ = none) {D : List FunctionDecl}
    {T : List Reference} {new : Prop} : (Rules.resolved D T new).declares Γ name := by
  refine ⟨hn, fun _ st hst hmem => ?_⟩
  obtain ⟨outer, rfl⟩ := List.head?_eq_some_iff.1 hst
  obtain ⟨scope, scopes, hshows, -, hσ⟩ := List.forall₂_cons_right_iff.1 h.scopes
  simp [Sighting.fault?, Sighting.innermost, hσ, (hshows name).2 hmem] at hf

end Standpoint.At

/-- A regular item adds no name but the one that it declares. -/
theorem Item.adds_eq : ∀ i : Item, i.Regular → i.adds = i.declared?.toList
  | .expr _ _, _ | .var _ _ _, _ | .block _ _, _ | .return _ _, _ | .break _, _ | .continue _, _
  | .assert _ _ _, _ | .assertFails _ _ _, _ | .function _ _, _ | .class _ _ _ _, _ => rfl
  | .ifThen _ t _, ⟨_, hbody, ht⟩ => (t.adds_eq ht).trans (by rw [Item.undeclared hbody.1]; rfl)
  | .ifElse _ t e _, ⟨_, ⟨hbody, _, ht⟩, hplain, he⟩ => by
    rw [Item.adds, t.adds_eq ht, Item.undeclared hbody.1, e.adds_eq he, Item.undeclared hplain]
    rfl
  | .while _ body _ _, ⟨_, _, hbody, h⟩ => (body.adds_eq h).trans (by rw [Item.undeclared hbody.1]; rfl)
  | .repeat _ body _, ⟨_, hbody, h⟩ => (body.adds_eq h).trans (by rw [Item.undeclared hbody.1]; rfl)

/-- A branch or the body of a loop declares nothing in the scope around it. -/
theorem Standpoint.after_branch (σ : Standpoint) {i : Item} (hbody : i.IsBody) (h : i.Regular) :
    σ.after i = σ := by
  rw [Standpoint.after, i.adds_eq h, Item.undeclared hbody.1]
  rfl

theorem Standpoint.At.after {Γ : Context} (h : σ.At none Γ) {i : Item} (hi : i.Placeable) :
    (σ.after i).At none (i.after Γ) := by
  rcases hi with hi | ⟨e, span, rfl, -⟩
  · rw [Standpoint.after, i.adds_eq hi, Item.after]
    cases i with
    | var name init span => exact h.define hi.1.not_reserved
    | function decl span => exact h.define hi.2.name.not_reserved
    | «class» name parent methods span => exact h.define hi.1.not_reserved
    | _ => exact h
  · exact h

/-! ## Trees -/

/-- Nothing is wrong with what is seen, and the table has the distances of the references there. -/
def Noted (d : Distances) (ss : List Sighting) : Prop :=
  ∀ s ∈ ss, s.fault? = none
    ∧ ∀ ident, s.ident? = some ident → d.get? ident.id = s.place.distance? ident.name

theorem noted_append {ss ss' : List Sighting} :
    Noted d (ss ++ ss') ↔ Noted d ss ∧ Noted d ss' := List.forall_mem_append

section Trees

variable {D : List FunctionDecl} {T : List Reference} {d : Distances} {new : Prop}

mutual

theorem Expr.follows_resolved : ∀ (e : Expr) {p : Option String} {Γ : Context} {σ : Standpoint},
    σ.At p Γ → e.Regular → Noted d (e.sightings σ) → e.references p Γ ⊆ T →
    e.Follows (Rules.resolved D T new) d p Γ
  | .literal _ _, _, _, _, _, hreg, _, _ => hreg
  | .list elements _, _, _, _, hσ, hreg, hs, hT => exprs_follow_resolved elements hσ hreg hs hT
  | .name ident span, _, _, σ, hσ, _, hs, hT => by
    obtain ⟨hf, hd⟩ := hs ⟨σ, .reads ident span⟩ (.head _)
    exact ⟨hT (.head _), (hd ident rfl).trans (hσ.distance_read hf)⟩
  | .assign target value _, _, _, σ, hσ, hreg, hs, hT => by
    obtain ⟨hvalue, htarget⟩ := noted_append.1 hs
    obtain ⟨-, hd⟩ := htarget ⟨σ, .writes target⟩ (.head _)
    obtain ⟨hmem, hT⟩ := List.cons_subset.1 hT
    exact ⟨hreg.1.not_reserved, value.follows_resolved hσ hreg.2 hvalue hT, hmem,
      (hd target rfl).trans (hσ.distance _)⟩
  | .unary _ operand _, _, _, _, hσ, hreg, hs, hT => operand.follows_resolved hσ hreg hs hT
  | .binary left _ right _, _, _, _, hσ, hreg, hs, hT | .logical left _ right _, _, _, _, hσ, hreg, hs, hT => by
    obtain ⟨hl, hr⟩ := noted_append.1 hs
    obtain ⟨hTl, hTr⟩ := List.append_subset.1 hT
    exact ⟨left.follows_resolved hσ hreg.1 hl hTl, right.follows_resolved hσ hreg.2 hr hTr⟩
  | .group inner _, _, _, _, hσ, hreg, hs, hT => inner.follows_resolved hσ hreg hs hT
  | .call callee args _, _, _, _, hσ, hreg, hs, hT => by
    obtain ⟨hc, ha⟩ := noted_append.1 hs
    obtain ⟨hTc, hTa⟩ := List.append_subset.1 hT
    exact ⟨exprs_follow_resolved args hσ hreg.2.2 ha hTa, callee.follows_resolved hσ hreg.1 hc hTc⟩
  | .getField object _ _, _, _, _, hσ, hreg, hs, hT => object.follows_resolved hσ hreg.1 hs hT
  | .setField object _ value _, _, _, _, hσ, hreg, hs, hT => by
    obtain ⟨hv, ho⟩ := noted_append.1 hs
    obtain ⟨hTo, hTv⟩ := List.append_subset.1 hT
    exact ⟨object.follows_resolved hσ hreg.1 ho hTo, value.follows_resolved hσ hreg.2.2 hv hTv⟩
  | .this ident span, _, _, σ, hσ, hreg, hs, hT => by
    obtain ⟨-, hd⟩ := hs ⟨σ, .this ident span⟩ (.head _)
    exact ⟨hT (.head _), (hd ident rfl).trans (hσ.distance_reserved (.inl hreg))⟩
  | .super ident _ span, _, Γ, σ, hσ, hreg, hs, hT => by
    obtain ⟨hf, hd⟩ := hs ⟨σ, .super ident span⟩ (.head _)
    have hrole : σ.classRole = some .subclass := by
      unfold Sighting.fault? at hf
      rcases hrole : σ.classRole with _ | _ | _
      · simp [hrole] at hf
      · simp [hrole] at hf
      · rfl
    have hclass := hσ.inClass
    rw [hrole] at hclass
    obtain ⟨n, span', hdist, hthis, hsuper⟩ := hclass.distance_super
    have hname : ident.name = "super" := hreg.1
    refine ⟨hT (.head _), hname, n, span', ?_, hthis, hsuper⟩
    rw [hd ident rfl, hσ.distance_reserved (.inr hname), hname, hdist]

theorem exprs_follow_resolved : ∀ (es : List Expr) {p : Option String} {Γ : Context} {σ : Standpoint},
    σ.At p Γ → exprsRegular es → Noted d (exprsSightings σ es) → exprsReferences p Γ es ⊆ T →
    exprsFollow (Rules.resolved D T new) d p Γ es
  | [], _, _, _, _, _, _, _ => trivial
  | e :: es, _, _, _, hσ, hreg, hs, hT => by
    obtain ⟨hfirst, hrest⟩ := noted_append.1 hs
    obtain ⟨hTf, hTr⟩ := List.append_subset.1 hT
    exact ⟨e.follows_resolved hσ hreg.1 hfirst hTf, exprs_follow_resolved es hσ hreg.2 hrest hTr⟩

end

theorem option_follows_resolved (e : Option Expr) {p : Option String} {Γ : Context} (hσ : σ.At p Γ)
    (hreg : ∀ x ∈ e, x.Regular) (hs : Noted d (optionSightings σ e))
    (hT : optionReferences p Γ e ⊆ T) : ∀ x ∈ e, x.Follows (Rules.resolved D T new) d p Γ := by
  rintro x ⟨⟩
  exact x.follows_resolved hσ (hreg x rfl) hs hT

mutual

theorem Item.follows_resolved : ∀ (i : Item) {loop : Bool} {Γ : Context} {σ : Standpoint},
    σ.At none Γ → i.Regular → Noted d (i.sightings σ) → i.references Γ ⊆ T →
    i.declarations ⊆ D → (σ.loops ≠ 0 → loop = true) →
    i.Follows (Rules.resolved D T new) d σ.function loop Γ
  | .expr e _, _, _, _, hσ, hreg, hs, hT, _, _ => e.follows_resolved hσ hreg.2 hs hT
  | .var _ init _, _, _, _, hσ, hreg, hs, hT, _, _ => by
    have hname := hreg.1.not_reserved
    obtain ⟨hnew, hs⟩ := List.forall_mem_cons.1 hs
    exact ⟨hσ.declares hname hnew.1, option_follows_resolved init (hσ.declare hname) hreg.2 hs hT⟩
  | .block body span, _, _, σ, hσ, hreg, hs, hT, hD, hl =>
    items_follow_resolved (σ := σ.enter (.block span)) body (hσ.enter _) hreg.placeable hs hT hD hl
  | .ifThen c t _, _, _, _, hσ, hreg, hs, hT, hD, hl => by
    obtain ⟨hc, ht⟩ := noted_append.1 hs
    obtain ⟨hTc, hTt⟩ := List.append_subset.1 hT
    exact ⟨c.follows_resolved hσ hreg.1 hc hTc, Item.undeclared hreg.2.1.1,
      t.follows_resolved hσ hreg.2.2 ht hTt hD hl⟩
  | .ifElse c t e _, _, _, σ, hσ, ⟨hcond, ⟨hbody, _, hthen⟩, hplain, helse⟩, hs, hT, hD, hl => by
    obtain ⟨hc, hs⟩ := noted_append.1 hs
    obtain ⟨ht, he⟩ := noted_append.1 hs
    obtain ⟨hTc, hT⟩ := List.append_subset.1 hT
    obtain ⟨hTt, hTe⟩ := List.append_subset.1 hT
    obtain ⟨hDt, hDe⟩ := List.append_subset.1 hD
    rw [σ.after_branch hbody hthen] at he
    exact ⟨c.follows_resolved hσ hcond hc hTc,
      ⟨Item.undeclared hbody.1, t.follows_resolved hσ hthen ht hTt hDt hl⟩,
      Item.undeclared hplain, e.follows_resolved hσ helse he hTe hDe hl⟩
  | .while c body increment _, _, _, σ, hσ, ⟨hcond, hincr, hbody, hloop⟩, hs, hT, hD, _ => by
    obtain ⟨hc, hs⟩ := noted_append.1 hs
    obtain ⟨hb, hi⟩ := noted_append.1 hs
    obtain ⟨hTc, hT⟩ := List.append_subset.1 hT
    obtain ⟨hTb, hTi⟩ := List.append_subset.1 hT
    rw [σ.after_branch hbody hloop] at hi
    exact ⟨c.follows_resolved hσ hcond hc hTc,
      ⟨Item.undeclared hbody.1,
        body.follows_resolved (σ := σ.inLoop) hσ.inLoop hloop hb hTb hD fun _ => rfl⟩,
      option_follows_resolved increment hσ hincr hi hTi⟩
  | .repeat count body _, _, _, σ, hσ, hreg, hs, hT, hD, _ => by
    obtain ⟨hc, hb⟩ := noted_append.1 hs
    obtain ⟨hTc, hTb⟩ := List.append_subset.1 hT
    exact ⟨count.follows_resolved hσ hreg.1 hc hTc, Item.undeclared hreg.2.1.1,
      body.follows_resolved (σ := σ.inLoop) hσ.inLoop hreg.2.2 hb hTb hD fun _ => rfl⟩
  | .return value span, _, _, σ, hσ, hreg, hs, hT, _, _ => by
    obtain ⟨⟨hf, -⟩, hvalue⟩ := List.forall_mem_cons.1 hs
    refine ⟨?_, option_follows_resolved value hσ hreg hvalue hT⟩
    unfold Sighting.fault? at hf
    rcases hrole : σ.function with _ | _ | _ | _
    · simp [hrole] at hf
    · trivial
    · trivial
    · cases value with
      | none => rfl
      | some e => simp [hrole] at hf
  | .break span, _, _, σ, _, _, hs, _, _, hl | .continue span, _, _, σ, _, _, hs, _, _, hl => by
    obtain ⟨⟨hf, -⟩, -⟩ := List.forall_mem_cons.1 hs
    exact hl fun hloops => by simp [Sighting.fault?, hloops] at hf
  | .assert c _ _, _, _, _, hσ, hreg, hs, hT, _, _ => c.follows_resolved hσ hreg hs hT
  | .assertFails e _ _, _, _, _, hσ, hreg, hs, hT, _, _ => e.follows_resolved hσ hreg hs hT
  | .function decl _, _, _, _, hσ, hreg, hs, hT, hD, _ => by
    have hname := hreg.2.name.not_reserved
    have hσ' := hσ.define hname
    obtain ⟨hnew, hs⟩ := List.forall_mem_cons.1 hs
    exact ⟨⟨hreg.1, hσ.declares hname hnew.1⟩, decl.follows_resolved hσ'.scopes
      (fun _ => hσ'.inClass.cons) (fun hmethod => nomatch hreg.1.symm.trans hmethod) hreg.2 hs hT hD⟩
  | .class name parent methods span, _, Γ, σ, hσ, hreg, hs, hT, hD, _ => by
    have hname := hreg.1.not_reserved
    obtain ⟨hnew, hs⟩ := List.forall_mem_cons.1 hs
    obtain ⟨hparent, hmethods⟩ := noted_append.1 hs
    obtain ⟨hTp, hTm⟩ := List.append_subset.1 hT
    have hσ' := hσ.define hname
    have hrole : ((σ.define name).inClass parent.isSome span).classRole
        = some (if parent.isSome then .subclass else .base) := by
      cases parent <;> rfl
    refine ⟨hσ.declares hname hnew.1, ⟨hσ.plain, ?_⟩, methods_follow_resolved methods
      (Shown.inClass hσ'.scopes _ span)
      (fun st hst => by rw [hrole]; exact InClass.ofMethods _ _ _ hst)
      (Context.distance_this_ofMethods _ _ _) hreg.2.2 hmethods hTm hD⟩
    -- the superclass is looked up where the class is declared already, but it is another one
    rintro ident ⟨⟩
    obtain ⟨hf, hd⟩ := hparent ⟨σ.define name, .inherits ident name span⟩ (.head _)
    have hne : ident.name ≠ name := fun heq => by simp [Sighting.fault?, heq] at hf
    refine ⟨hTp (.head _), (hd ident rfl).trans ?_⟩
    exact (hσ'.distance_of_ne nofun).trans (Context.distance?_declare_of_ne hne)

theorem items_follow_resolved : ∀ (is : List Item) {l : Bool} {Γ : Context} {σ : Standpoint},
    σ.At none Γ → (∀ i ∈ is, i.Placeable) → Noted d (itemsSightings σ is) → itemsReferences Γ is ⊆ T →
    declarationsIn is ⊆ D → (σ.loops ≠ 0 → l = true) →
    itemsFollow (Rules.resolved D T new) d σ.function l Γ is
  | [], _, _, _, _, _, _, _, _, _ => trivial
  | i :: is, loop, _, σ, hσ, hreg, hs, hT, hD, hl => by
    obtain ⟨hi, his⟩ := List.forall_mem_cons.1 hreg
    obtain ⟨hfirst, hrest⟩ := noted_append.1 hs
    obtain ⟨hTf, hTr⟩ := List.append_subset.1 hT
    obtain ⟨hDf, hDr⟩ := List.append_subset.1 hD
    obtain ⟨-, hfunction, -, hloops⟩ := σ.same_defineAll i.adds
    have hafter := items_follow_resolved (l := loop) is (hσ.after hi) his hrest hTr hDr
      fun h => hl (by rwa [Standpoint.after, hloops] at h)
    rw [Standpoint.after, hfunction] at hafter
    refine ⟨?_, hafter⟩
    rcases hi with hi | ⟨e, span, rfl, he⟩
    · exact i.follows_resolved hσ hi hfirst hTf hDf hl
    · exact e.follows_resolved hσ he hfirst hTf

theorem FunctionDecl.follows_resolved : ∀ (decl : FunctionDecl) {role : FunctionRole} {Γ : Context}
    {σ : Standpoint}, Shown σ.scopes Γ →
    (∀ st : StaticScope, (∀ name ∈ st.names, ¬ Reserved name) → InClass σ.classRole (st :: Γ)) →
    (decl.kind = .method → Γ.distance? "this" = some 0) → decl.Regular →
    Noted d (decl.sightings role σ) → decl.references Γ ⊆ T → decl.declarations ⊆ D →
    decl.Follows (Rules.resolved D T new) d role Γ
  | ⟨_, id, _, _, params, body, _⟩, role, Γ, σ, hscopes, hc, hthis, hreg, hs, hT, hD => by
    obtain ⟨hdecl, hD⟩ := List.cons_subset.1 hD
    have hpar : ∀ p ∈ params, ¬ Reserved p := fun p hp => (hreg.2.2.1 p hp).not_reserved
    obtain ⟨-, hfunction, hclass, hloops⟩ := (σ.inFunction role id).same_defineAll params
    have hshown : Shown (σ.inFunction role id).scopes ({ site := .function id, names := [] } :: Γ) :=
      .cons (fun _ => .rfl) hscopes
    have hin := hshown.defineAll params
    rw [List.append_nil] at hin
    have hbody := items_follow_resolved (l := false) body
      (.ready hin (by rw [hclass]; exact hc _ hpar) (by rintro - ⟨⟩; nofun)) hreg.2.2.2.placeable
      (noted_append.1 hs).2 hT hD
      fun h => absurd hloops h
    rw [hfunction] at hbody
    exact ⟨⟨hdecl, hthis⟩, hreg.1.not_reserved, hpar, hbody⟩

theorem methods_follow_resolved : ∀ (ms : List FunctionDecl) {Γ : Context} {σ : Standpoint},
    Shown σ.scopes Γ →
    (∀ st : StaticScope, (∀ name ∈ st.names, ¬ Reserved name) → InClass σ.classRole (st :: Γ)) →
    Γ.distance? "this" = some 0 → methodsRegular ms → Noted d (methodsSightings σ ms) →
    methodsReferences Γ ms ⊆ T → declarationsInMethods ms ⊆ D →
    methodsFollow (Rules.resolved D T new) d Γ ms
  | [], _, _, _, _, _, _, _, _, _ => trivial
  | m :: ms, _, _, hscopes, hc, hthis, hreg, hs, hT, hD => by
    obtain ⟨hfirst, hrest⟩ := noted_append.1 hs
    obtain ⟨hTf, hTr⟩ := List.append_subset.1 hT
    obtain ⟨hDf, hDr⟩ := List.append_subset.1 hD
    exact ⟨⟨hreg.1.1, m.follows_resolved hscopes hc (fun _ => hthis) hreg.1.2 hfirst hTf hDf⟩,
      methods_follow_resolved ms hscopes hc hthis hreg.2 hrest hTr hDr⟩

end

end Trees

/-! ## The whole program -/

theorem resolve_unique (h : resolve program = .ok d) : d.Unique := by
  rw [resolve_eq_analyse] at h
  exact judgeSightings_unique h

/-- An executor that knows no distances takes over exactly those that were noted. -/
theorem union_resolved (h : resolve program = .ok d) :
    ({} : Distances).union d = d := Table.empty_union (resolve_unique h)

/-- A program that is not refused follows the rules with the distances that were noted, once an
    executor has taken them over. -/
theorem resolve_noted (h : resolve program = .ok d) (hregular : itemsRegular program)
    (hids : (itemsIds program).Nodup) (new : Prop := False) :
    itemsFollow (Rules.resolved (declarationsIn program) (itemsReferences [] program) new)
      (({} : Distances).union d) none false [] program := by
  rw [union_resolved h]
  rw [resolve_eq_analyse] at h
  refine items_follow_resolved program (σ := {}) (.ready .nil trivial nofun) hregular.placeable ?_
    (List.Subset.refl _) (List.Subset.refl _) fun h => absurd rfl h
  have hnodup : (sightingsIds (itemsSightings {} program)).Nodup := sightingsIds_nodup hids
  exact fun s hs => ⟨judgeSightings_fault h s hs, fun ident => judgeSightings_own h hnodup hs⟩

end Eleu
