import Eleu.Proofs.Scope.Sightings
import Eleu.Proofs.Tree.Regular

/-! # The resolver is an analysis by standpoints

    The resolver keeps its standpoint in its state. Wherever it starts, its scopes, roles and loops are
    those of some standpoint (`Resolver.Stands`), and what it does with a part of a program is told by
    the sightings there: it ends with the first fault among them, or it has noted all distances and is
    at the standpoint after that part (`Resolve.Tells`). This holds of each step of the resolver and of
    steps one after the other (`Told.bind`), hence of all trees. -/

namespace Eleu

variable {ss : List Sighting} {σ seen : Standpoint}

/-! ## Resolvers at standpoints -/

/-- The resolver has the same names in a scope. -/
structure Scope.Seen (scope : Scope) (seen : OpenScope) : Prop where
  names : ∀ name, scope.contains name = true ↔ name ∈ seen.names
  unready : ∀ name, scope.get? name = some false ↔ name ∈ seen.unready

namespace Scope.Seen

variable {scope : Scope} {seen : OpenScope}

theorem new (site : Site) : Scope.Seen {} { site } :=
  ⟨fun _ => ⟨nofun, nofun⟩, fun _ => ⟨nofun, nofun⟩⟩

/-- Whether ready or not, a name that is put into the scope is there. -/
theorem names_insert (h : scope.Seen seen) (name other : String) (ready : Bool) :
    (scope.insert name ready).contains other = true ↔ other ∈ name :: seen.names := by
  rw [Table.contains, Table.get?_insert, List.mem_cons, ← h.names, Table.contains]
  by_cases hn : name = other
  · simp [hn]
  · simp [hn, Ne.symm hn]

theorem declare (h : scope.Seen seen) (name : String) : Scope.Seen (scope.insert name false)
    { seen with names := name :: seen.names, unready := name :: seen.unready } := by
  refine ⟨fun other => h.names_insert name other false, fun other => ?_⟩
  rw [Table.get?_insert, List.mem_cons, ← h.unready]
  by_cases hn : name = other
  · simp [hn]
  · simp [hn, Ne.symm hn]

theorem define (h : scope.Seen seen) (name : String) : Scope.Seen (scope.insert name true)
    { seen with names := name :: seen.names, unready := seen.unready.filter (· ≠ name) } := by
  refine ⟨fun other => h.names_insert name other true, fun other => ?_⟩
  rw [Table.get?_insert, List.mem_filter, ← h.unready]
  by_cases hn : name = other
  · simp [hn]
  · simp [hn, Ne.symm hn]

/-- A name that was declared becomes ready. -/
theorem ready {name : String}
    (h : scope.Seen { seen with names := name :: seen.names, unready := name :: seen.unready }) :
    Scope.Seen (scope.insert name true)
      { seen with names := name :: seen.names, unready := seen.unready.filter (· ≠ name) } := by
  obtain ⟨hnames, hunready⟩ := h.define name
  refine ⟨fun other => (hnames other).trans ?_, fun other => (hunready other).trans ?_⟩
  · simp
  · simp

/-- Every scope of a resolver can be seen. -/
theorem exists_seen (scope : Scope) : ∃ seen, scope.Seen seen := by
  have hkeys : ∀ name, scope.contains name = true ↔ name ∈ scope.entries.map Prod.fst := by
    intro name
    unfold Table.contains Table.get?
    induction scope.entries with
    | nil => simp [Table.find]
    | cons entry rest ih =>
      obtain ⟨key, value⟩ := entry
      by_cases hk : key = name
      · simp [Table.find, hk]
      · simp [Table.find, hk, Ne.symm hk, ih]
  refine ⟨⟨.this, scope.entries.map Prod.fst,
    (scope.entries.map Prod.fst).filter fun name => scope.get? name = some false⟩, hkeys, fun name => ?_⟩
  rw [List.mem_filter, ← hkeys, Table.contains]
  constructor
  · intro h
    simp [h]
  · rintro ⟨-, h⟩
    simpa using h

end Scope.Seen

/-- The state of the resolver is that of a standpoint. -/
structure Resolver.Stands (r : Resolver) (σ : Standpoint) : Prop where
  scopes : List.Forall₂ Scope.Seen r.scopes σ.scopes
  function : r.function = σ.function
  classRole : r.classRole = σ.classRole
  loops : r.loopDepth = σ.loops

namespace Resolver.Stands

variable {r : Resolver} {σ : Standpoint}

/-- Every resolver stands somewhere. -/
theorem exists_stands (r : Resolver) : ∃ σ, r.Stands σ := by
  have hscopes : ∀ scopes : List Scope, ∃ seen, List.Forall₂ Scope.Seen scopes seen := by
    intro scopes
    induction scopes with
    | nil => exact ⟨[], .nil⟩
    | cons scope outer ih =>
      obtain ⟨seen, hseen⟩ := Scope.Seen.exists_seen scope
      obtain ⟨rest, hrest⟩ := ih
      exact ⟨seen :: rest, .cons hseen hrest⟩
  obtain ⟨seen, hseen⟩ := hscopes r.scopes
  exact ⟨⟨seen, r.function, r.classRole, r.loopDepth⟩, hseen, rfl, rfl, rfl⟩

theorem enter (h : r.Stands σ) (site : Site) :
    Stands { r with scopes := {} :: r.scopes } (σ.enter site) :=
  ⟨.cons (.new site) h.scopes, h.function, h.classRole, h.loops⟩

theorem leave (h : r.Stands σ) : Stands { r with scopes := r.scopes.tail } σ.leave := by
  have htail : ∀ {scopes : List Scope} {seen : List OpenScope}, List.Forall₂ Scope.Seen scopes seen →
      List.Forall₂ Scope.Seen scopes.tail seen.tail := by
    intro scopes seen hseen
    cases hseen with
    | nil => exact .nil
    | cons _ houter => exact houter
  exact ⟨htail h.scopes, h.function, h.classRole, h.loops⟩

/-- The resolver and its standpoint find a name equally far out. -/
theorem distance (h : r.Stands σ) (name : String) :
    Resolve.distanceIn name r.scopes = σ.distance? name := by
  have hscopes : ∀ {scopes : List Scope} {seen : List OpenScope}, List.Forall₂ Scope.Seen scopes seen →
      Resolve.distanceIn name scopes = seen.findIdx? (name ∈ ·.names) := by
    intro scopes seen hseen
    induction hseen with
    | nil => rfl
    | @cons scope first scopes seen hfirst _ ih =>
      rw [Resolve.distanceIn, List.findIdx?_cons, ih]
      by_cases hn : name ∈ first.names
      · rw [if_pos ((hfirst.names name).2 hn), if_pos (decide_eq_true hn)]
      · rw [if_neg fun hc => hn ((hfirst.names name).1 hc), if_neg (by simpa using hn)]
  exact hscopes h.scopes

/-- Notes make no difference to where the resolver stands. -/
theorem noted (h : r.Stands σ) (d : Distances) : Stands { r with distances := d } σ :=
  ⟨h.scopes, h.function, h.classRole, h.loops⟩

/-- The innermost scope of the resolver is seen from the standpoint. -/
theorem innermost (h : r.Stands σ) :
    r.scopes = [] ∧ σ.scopes = [] ∨ ∃ scope outer seen rest, r.scopes = scope :: outer
      ∧ σ.scopes = seen :: rest ∧ scope.Seen seen ∧ List.Forall₂ Scope.Seen outer rest := by
  have hs := h.scopes
  generalize r.scopes = scopes at hs
  generalize σ.scopes = seen at hs
  cases hs with
  | nil => exact .inl ⟨rfl, rfl⟩
  | cons hfirst hrest => exact .inr ⟨_, _, _, _, rfl, rfl, hfirst, hrest⟩

end Resolver.Stands

/-! ## Told by sightings -/

theorem Resolve.get_bind {β : Type} {r : Resolver} (f : Resolver → Resolve β) : (get >>= f) r = f r r := rfl

/-- The outcome is told by the sightings: it is the first fault, or all distances were added to `d` and
    the resolver stands at `σ'`. -/
def Told (d : Distances) (ss : List Sighting) (σ' : Standpoint) (x : Except Fault (Unit × Resolver)) : Prop :=
  match firstFault? ss with
  | some f => x = .error f
  | none => ∃ r', x = .ok ((), r') ∧ r'.Stands σ' ∧ r'.distances = ss.foldl Sighting.note d

/-- From the standpoint `σ`, what the computation does is told by the sightings, and it leads to `σ'`. -/
def Resolve.Tells (x : Resolve Unit) (σ : Standpoint) (ss : List Sighting) (σ' : Standpoint) : Prop :=
  ∀ r, r.Stands σ → Told r.distances ss σ' (x r)

namespace Told

variable {r r' : Resolver} {ss ss' : List Sighting} {s : Sighting} {σ₁ σ' : Standpoint} {d : Distances}
  {x : Except Fault (Unit × Resolver)}

/-- There is nothing to see. -/
theorem quiet (hs : r'.Stands σ') (hd : r'.distances = d) : Told d [] σ' (.ok ((), r')) :=
  ⟨r', rfl, hs, hd⟩

/-- A sighting with a fault is refused. -/
theorem refused {f : Fault} (h : s.fault? = some f) : Told d [s] σ' (.error f) := by
  unfold Told
  rw [firstFault?_singleton, h]

/-- One without is noted. -/
theorem passed (h : s.fault? = none) (hs : r'.Stands σ') (hd : r'.distances = s.note d) :
    Told d [s] σ' (.ok ((), r')) := by
  unfold Told
  rw [firstFault?_singleton, h]
  exact ⟨r', rfl, hs, hd⟩

/-- One computation after the other is told by the sightings of the one and then of the other. -/
theorem bind {a : Resolve Unit} {f : Unit → Resolve Unit} (ha : Told r.distances ss σ₁ (a r))
    (hf : ∀ r', r'.Stands σ₁ → Told r'.distances ss' σ' (f () r')) :
    Told r.distances (ss ++ ss') σ' ((a >>= f) r) := by
  show Told _ _ _ (a r >>= fun p => f p.1 p.2)
  unfold Told at ha ⊢
  rw [firstFault?_append]
  cases hfault : firstFault? ss with
  | some f' =>
    rw [hfault] at ha
    have ha : a r = .error f' := ha
    rw [ha]
    rfl
  | none =>
    rw [hfault] at ha
    obtain ⟨r', hr', hs', hd'⟩ := ha
    have hrest := hf r' hs'
    unfold Told at hrest
    rw [hr', List.foldl_append, ← hd', Option.none_or]
    exact hrest

end Told

namespace Resolve.Tells

variable {x : Resolve Unit} {f : Unit → Resolve Unit} {σ σ₁ σ' : Standpoint} {ss ss' : List Sighting}

theorem bind (hx : Tells x σ ss σ₁) (hf : Tells (f ()) σ₁ ss' σ') : Tells (x >>= f) σ (ss ++ ss') σ' :=
  fun r hr => (hx r hr).bind hf

/-- What comes first sees nothing. -/
theorem after (hx : Tells x σ [] σ₁) (hf : Tells (f ()) σ₁ ss σ') : Tells (x >>= f) σ ss σ' := hx.bind hf

/-- What comes afterwards sees nothing. -/
theorem before (hx : Tells x σ ss σ₁) (hf : Tells (f ()) σ₁ [] σ') : Tells (x >>= f) σ ss σ' := by
  have h := hx.bind hf
  rw [List.append_nil] at h
  exact h

/-- A change of the state that adds no notes. -/
theorem change {g : Resolver → Resolver} (h : ∀ r, r.Stands σ → (g r).Stands σ')
    (hd : ∀ r, (g r).distances = r.distances) : Tells (modify g) σ [] σ' :=
  fun r hr => .quiet (h r hr) (hd r)

theorem done (σ : Standpoint) : Tells (pure ()) σ [] σ := fun _ hr => .quiet hr rfl

theorem openScope (site : Site) (σ : Standpoint) : Tells openScope σ [] (σ.enter site) :=
  change (fun _ hr => hr.enter site) fun _ => rfl

theorem closeScope (σ : Standpoint) : Tells closeScope σ [] σ.leave :=
  change (fun _ hr => hr.leave) fun _ => rfl

theorem define (name : String) (σ : Standpoint) : Tells (define name) σ [] (σ.define name) := by
  refine change (fun r hr => ?_) fun r => ?_
  · rcases hr.innermost with ⟨hnil, hnil'⟩ | ⟨scope, outer, seen, rest, hscopes, hseen, hfirst, hrest⟩
    · rw [hnil]
      refine ⟨?_, hr.function, hr.classRole, hr.loops⟩
      rw [hnil, Standpoint.define, hnil']
      exact .nil
    · rw [hscopes]
      refine ⟨?_, hr.function, hr.classRole, hr.loops⟩
      rw [Standpoint.define, hseen]
      exact .cons (hfirst.define name) hrest
  · cases r.scopes <;> rfl

/-- The initialiser of a variable is over. -/
theorem ready (name : String) (σ : Standpoint) :
    Tells (Resolve.define name) (σ.declare name) [] (σ.define name) := by
  refine change (fun r hr => ?_) fun r => ?_
  · rcases hr.innermost with ⟨hnil, hnil'⟩ | ⟨scope, outer, seen, rest, hscopes, hseen, hfirst, hrest⟩
    · rw [hnil]
      refine ⟨?_, hr.function, hr.classRole, hr.loops⟩
      unfold Standpoint.declare at hnil'
      rw [hnil, Standpoint.define, List.modifyHead_eq_nil_iff.1 hnil']
      exact .nil
    · rw [hscopes]
      refine ⟨?_, hr.function, hr.classRole, hr.loops⟩
      cases hσ : σ.scopes with
      | nil =>
        rw [Standpoint.declare, hσ] at hseen
        exact nomatch hseen
      | cons first outer' =>
        rw [Standpoint.declare, hσ] at hseen
        cases hseen
        rw [Standpoint.define, hσ]
        exact .cons hfirst.ready hrest
  · cases r.scopes <;> rfl

/-- A declaration, which must be the first of its name in the scope. -/
theorem declare (name : String) (span : Span) (h : seen.scopes = σ.scopes) :
    Tells (declare name span) σ [⟨seen, .declares name span⟩] (σ.declare name) := by
  intro r hr
  unfold Resolve.declare
  rw [get_bind]
  rcases hr.innermost with ⟨hnil, hnil'⟩ | ⟨scope, outer, first, rest, hscopes, hseen, hfirst, hrest⟩
  · rw [hnil]
    have hfault : Sighting.fault? ⟨seen, .declares name span⟩ = none := by
      simp [Sighting.fault?, Sighting.innermost, h, hnil']
    refine .passed hfault ⟨?_, hr.function, hr.classRole, hr.loops⟩ rfl
    rw [hnil, Standpoint.declare, hnil']
    exact .nil
  · rw [hscopes]
    dsimp only
    by_cases hn : name ∈ first.names
    · rw [if_pos ((hfirst.names name).2 hn)]
      refine .refused ?_
      simp [Sighting.fault?, Sighting.innermost, h, hseen, hn]
    · rw [if_neg fun hc => hn ((hfirst.names name).1 hc)]
      have hfault : Sighting.fault? ⟨seen, .declares name span⟩ = none := by
        simp [Sighting.fault?, Sighting.innermost, h, hseen, hn]
      refine .passed hfault ⟨?_, hr.function, hr.classRole, hr.loops⟩ rfl
      rw [Standpoint.declare, hseen]
      exact .cons (hfirst.declare name) hrest

/-- A name that is declared and ready at once. -/
theorem introduce (name : String) (span : Span) (h : seen.scopes = σ.scopes)
    {f : Unit → Resolve Unit} (hf : Tells (f ()) (σ.define name) ss σ') :
    Tells (Resolve.declare name span >>= fun _ => Resolve.define name >>= f) σ
      (⟨seen, .declares name span⟩ :: ss) σ' :=
  (declare name span h).bind ((ready name σ).after hf)

/-- A reference is noted. -/
theorem reference {s : Sighting} {ident : Ident} (hi : s.ident? = some ident) (hf : s.fault? = none)
    (hplace : s.place.scopes = σ.scopes) : Tells (reference ident) σ [s] σ := by
  intro r hr
  have hdistance : Resolve.distanceIn ident.name r.scopes = s.place.distance? ident.name := by
    rw [hr.distance, Standpoint.distance?, Standpoint.distance?, hplace]
  cases hd : Resolve.distanceIn ident.name r.scopes with
  | some n =>
    have hnoted : Resolve.reference ident r
        = .ok ((), { r with distances := r.distances.insert ident.id n }) := by
      show Except.ok ((), _) = _
      dsimp only
      rw [hd]
    have hnote : s.note r.distances = r.distances.insert ident.id n := by
      rw [Sighting.note, hi]
      dsimp only
      rw [← hdistance, hd]
    rw [hnoted]
    exact .passed hf (hr.noted _) hnote.symm
  | none =>
    have hnoted : Resolve.reference ident r = .ok ((), r) := by
      show Except.ok ((), _) = _
      dsimp only
      rw [hd]
    have hnote : s.note r.distances = r.distances := by
      rw [Sighting.note, hi]
      dsimp only
      rw [← hdistance, hd]
    rw [hnoted]
    exact .passed hf hr hnote.symm

/-- Reading a variable. -/
theorem reads (ident : Ident) (span : Span) (σ : Standpoint) :
    Tells (checkInitialised ident span >>= fun _ => Resolve.reference ident) σ
      [⟨σ, .reads ident span⟩] σ := by
  intro r hr
  show Told _ _ _ (checkInitialised ident span r >>= fun p => Resolve.reference ident p.2)
  have hpassed : checkInitialised ident span r = .ok ((), r) → Sighting.fault? ⟨σ, .reads ident span⟩ = none →
      Told r.distances [⟨σ, .reads ident span⟩] σ
        (checkInitialised ident span r >>= fun p => Resolve.reference ident p.2) := by
    intro hcheck hf
    rw [hcheck]
    exact reference rfl hf rfl r hr
  rcases hr.innermost with ⟨hnil, hnil'⟩ | ⟨scope, outer, first, rest, hscopes, hseen, hfirst, hrest⟩
  · refine hpassed ?_ (by simp [Sighting.fault?, Sighting.innermost, hnil'])
    rw [checkInitialised, get_bind, hnil]
    rfl
  · by_cases hn : ident.name ∈ first.unready
    · have hrefused : checkInitialised ident span r
          = .error { cause := .ownInitialiser ident.name, span := some span } := by
        rw [checkInitialised, get_bind, hscopes]
        dsimp only
        rw [if_pos ((hfirst.unready ident.name).2 hn)]
        rfl
      rw [hrefused]
      exact .refused (by simp [Sighting.fault?, Sighting.innermost, hseen, hn])
    · refine hpassed ?_ (by simp [Sighting.fault?, Sighting.innermost, hseen, hn])
      rw [checkInitialised, get_bind, hscopes]
      dsimp only
      rw [if_neg fun hc => hn ((hfirst.unready ident.name).1 hc)]
      rfl

theorem this (ident : Ident) (span : Span) (σ : Standpoint) :
    Tells (Resolve.expr (.this ident span)) σ [⟨σ, .this ident span⟩] σ := by
  intro r hr
  rw [Resolve.expr, get_bind]
  cases hc : r.classRole with
  | none =>
    rw [hr.classRole] at hc
    exact .refused (by simp [Sighting.fault?, hc])
  | some role =>
    rw [hr.classRole] at hc
    exact reference (s := ⟨σ, .this ident span⟩) rfl (by simp [Sighting.fault?, hc]) rfl r hr

theorem super (ident : Ident) (method : String) (span : Span) (σ : Standpoint) :
    Tells (Resolve.expr (.super ident method span)) σ [⟨σ, .super ident span⟩] σ := by
  intro r hr
  rw [Resolve.expr, get_bind]
  cases hc : r.classRole with
  | none =>
    rw [hr.classRole] at hc
    exact .refused (by simp [Sighting.fault?, hc])
  | some role =>
    rw [hr.classRole] at hc
    cases role with
    | base => exact .refused (by simp [Sighting.fault?, hc])
    | subclass =>
      exact reference (s := ⟨σ, .super ident span⟩) rfl (by simp [Sighting.fault?, hc]) rfl r hr

theorem checkReturn (value : Option Expr) (span : Span) (σ : Standpoint) :
    Tells (checkReturn value span) σ [⟨σ, .returns value.isSome span⟩] σ := by
  intro r hr
  unfold Resolve.checkReturn
  rw [get_bind]
  cases hfun : r.function with
  | none =>
    rw [hr.function] at hfun
    exact .refused (by simp [Sighting.fault?, hfun])
  | some role =>
    rw [hr.function] at hfun
    cases role with
    | initialiser =>
      cases value with
      | none => exact .passed (by simp [Sighting.fault?, hfun]) hr rfl
      | some e => exact .refused (by simp [Sighting.fault?, hfun])
    | function | method => exact .passed (by simp [Sighting.fault?, hfun]) hr rfl

theorem checkLoop (keyword : String) (span : Span) (σ : Standpoint) :
    Tells (checkLoop keyword span) σ [⟨σ, .jumps keyword span⟩] σ := by
  intro r hr
  unfold Resolve.checkLoop
  rw [get_bind, hr.loops]
  by_cases hl : σ.loops = 0
  · rw [if_pos hl]
    exact .refused (by simp [Sighting.fault?, hl])
  · rw [if_neg hl]
    exact .passed (by simp [Sighting.fault?, hl]) hr rfl

theorem enterLoop (σ : Standpoint) : Tells enterLoop σ [] σ.inLoop :=
  change (fun _ hr => ⟨hr.scopes, hr.function, hr.classRole, congrArg (· + 1) hr.loops⟩) fun _ => rfl

theorem leaveLoop (σ : Standpoint) : Tells leaveLoop σ.inLoop [] σ :=
  change (fun _ hr => ⟨hr.scopes, hr.function, hr.classRole, congrArg (· - 1) hr.loops⟩) fun _ => rfl

theorem setClassRole (role : Option ClassRole) (σ : Standpoint) :
    Tells (modify fun r => { r with classRole := role }) σ [] { σ with classRole := role } :=
  change (fun _ hr => ⟨hr.scopes, hr.function, rfl, hr.loops⟩) fun _ => rfl

/-- The head of a class with a superclass. -/
theorem enterClass (name : String) (parent : Ident) (span : Span) (h : seen.scopes = σ.scopes) :
    Tells (enterClass name (some parent) span) σ [⟨seen, .inherits parent name span⟩]
      { (σ.enter (.super span)).define "super" with classRole := some .subclass } := by
  unfold Resolve.enterClass
  dsimp only
  by_cases hn : parent.name = name
  · intro r _
    rw [if_pos hn]
    exact .refused (by simp [Sighting.fault?, hn])
  · rw [if_neg hn]
    have hreference : Tells (Resolve.reference parent) σ [⟨seen, .inherits parent name span⟩] σ :=
      reference rfl (by simp [Sighting.fault?, hn]) h
    exact hreference.before ((setClassRole (some .subclass) σ).after
      ((openScope (.super span) _).after (define "super" _)))

end Resolve.Tells

/-! ## Trees -/

open Resolve (Tells)

mutual

theorem Expr.tells (σ : Standpoint) : ∀ e : Expr, Tells (Resolve.expr e) σ (e.sightings σ) σ
  | .literal _ _ => .done σ
  | .list elements _ => exprs_tell σ elements
  | .name ident span => .reads ident span σ
  | .assign target value _ =>
    (value.tells σ).bind (.reference (s := ⟨σ, .writes target⟩) rfl rfl rfl)
  | .unary _ operand _ => operand.tells σ
  | .binary left _ right _ => (left.tells σ).bind (right.tells σ)
  | .logical left _ right _ => (left.tells σ).bind (right.tells σ)
  | .group inner _ => inner.tells σ
  | .call callee args _ => (callee.tells σ).bind (exprs_tell σ args)
  | .getField object _ _ => object.tells σ
  | .setField object _ value _ => (value.tells σ).bind (object.tells σ)
  | .this ident span => .this ident span σ
  | .super ident method span => .super ident method span σ

theorem exprs_tell (σ : Standpoint) : ∀ es : List Expr, Tells (Resolve.exprs es) σ (exprsSightings σ es) σ
  | [] => .done σ
  | e :: es => (e.tells σ).bind (exprs_tell σ es)

end

theorem option_tells (σ : Standpoint) (e : Option Expr) :
    Tells (Resolve.optionalExpr e) σ (optionSightings σ e) σ := by
  cases e with
  | none => exact .done σ
  | some e => exact e.tells σ

theorem params_tell (span : Span) (names : List String) (σ : Standpoint) :
    Tells (Resolve.parameters span names) σ (paramsSightings span σ names) (σ.defineAll names) := by
  induction names generalizing σ with
  | nil => exact .done σ
  | cons name names ih => exact .introduce name span rfl (ih (σ.define name))

/-- The body of a loop leads to the standpoint that it leads to outside the loop. -/
theorem inLoop_tells {x : Resolve Unit} (σ : Standpoint) (body : Item)
    (h : Tells x σ.inLoop ss (σ.inLoop.after body)) :
    Tells x σ.inLoop ss (σ.after body).inLoop := by
  rw [Standpoint.after, Standpoint.defineAll_inLoop] at h
  exact h

/-- A function, once its parameters and its body are known to tell. -/
theorem function_tells {role : FunctionRole} {unit id : Nat} {kind : FunctionKind} {name : String}
    {params : List String} {body : List Item} {span : Span} {ss' : List Sighting}
    {names : List String}
    (hparams : Tells (Resolve.parameters span params) (σ.inFunction role id) ss
      ((σ.inFunction role id).defineAll params))
    (hbody : Tells (Resolve.items body) ((σ.inFunction role id).defineAll params) ss'
      (((σ.inFunction role id).defineAll params).defineAll names)) :
    Tells (Resolve.function role ⟨unit, id, kind, name, params, body, span⟩) σ (ss ++ ss') σ := by
  intro r hr
  rw [Resolve.function, Resolve.get_bind]
  let inside : Standpoint := { σ with function := some role, loops := 0 }
  have henter : Told r.distances [] inside
      ((set { r with function := some role, loopDepth := 0 } : Resolve Unit) r) :=
    .quiet ⟨hr.scopes, rfl, hr.classRole, rfl⟩ rfl
  -- the function and the loops around are those from before
  have hend : Tells (modify fun r' => { r' with function := r.function, loopDepth := r.loopDepth })
      inside [] σ :=
    .change (fun _ hr' => ⟨hr'.scopes, hr.function, hr'.classRole, hr.loops⟩) fun _ => rfl
  have hclose := Tells.closeScope (((σ.inFunction role id).defineAll params).defineAll names)
  rw [Standpoint.leave_defineAll, Standpoint.leave_defineAll] at hclose
  have hrest : Tells (Resolve.parameters span params >>= fun _ => Resolve.items body >>= fun _ =>
      Resolve.closeScope >>= fun _ =>
        modify fun r' => { r' with function := r.function, loopDepth := r.loopDepth })
      (inside.enter (.function id)) (ss ++ ss') σ :=
    hparams.bind (hbody.before (hclose.after hend))
  exact henter.bind ((Tells.openScope (.function id) inside).after hrest)

/-- A class, once its methods are known to tell. -/
theorem class_tells (name : String) (parent : Option Ident) {methods : List FunctionDecl}
    (span : Span)
    (hmethods : Tells (Resolve.members methods) ((σ.define name).inClass parent.isSome span) ss
      ((σ.define name).inClass parent.isSome span)) :
    Tells (Resolve.item (.class name parent methods span)) σ
      (⟨σ, .declares name span⟩ :: (parentSightings name span (σ.define name) parent ++ ss))
      (σ.define name) := by
  intro r hr
  rw [Resolve.item, Resolve.get_bind]
  refine Tells.after (.setClassRole (some .base) σ) (.introduce name span rfl ?_) r hr
  -- the class around is the one from before
  have hend : ∀ σ' : Standpoint, { σ' with classRole := σ.classRole } = σ.define name →
      Tells (modify fun r' => { r' with classRole := r.classRole }) σ' [] (σ.define name) := by
    intro σ' hσ'
    rw [hr.classRole, ← hσ']
    exact .setClassRole σ.classRole σ'
  cases parent with
  | none =>
    refine Tells.after (.done _) (.after (.openScope .this _) (.after (.define "this" _) ?_))
    exact Tells.before hmethods (.after (.closeScope _) (hend _ rfl))
  | some ident =>
    refine Tells.bind (.enterClass name ident span rfl) (.after (.openScope .this _)
      (.after (.define "this" _) ?_))
    exact Tells.before hmethods (.after (.closeScope _) (.after (.closeScope _) (hend _ rfl)))

mutual

theorem Item.tells (σ : Standpoint) : ∀ i : Item, Tells (Resolve.item i) σ (i.sightings σ) (σ.after i)
  | .expr e _ => e.tells σ
  | .var name init span =>
    (Tells.declare name span rfl).bind ((option_tells (σ.declare name) init).before (.ready name σ))
  | .block body span => by
    refine Tells.after (.openScope (.block span) σ) ((items_tell _ body).before ?_)
    have hclose := Tells.closeScope ((σ.enter (.block span)).defineAll (body.flatMap Item.adds))
    rw [Standpoint.leave_defineAll, Standpoint.leave_enter] at hclose
    exact hclose
  | .ifThen c thenItem _ => (c.tells σ).bind (thenItem.tells σ)
  | .ifElse c thenItem elseItem _ => by
    have helse := elseItem.tells (σ.after thenItem)
    rw [Standpoint.after, Standpoint.after, ← Standpoint.defineAll_append] at helse
    exact (c.tells σ).bind ((thenItem.tells σ).bind helse)
  | .while c body increment _ =>
    (c.tells σ).bind ((Tells.enterLoop σ).after ((inLoop_tells σ body (body.tells σ.inLoop)).bind
      (.after (.leaveLoop _) (option_tells (σ.after body) increment))))
  | .repeat count body _ =>
    (count.tells σ).bind ((Tells.enterLoop σ).after
      ((inLoop_tells σ body (body.tells σ.inLoop)).before (.leaveLoop _)))
  | .return value span => (Tells.checkReturn value span σ).bind (option_tells σ value)
  | .break span => .checkLoop "break" span σ
  | .continue span => .checkLoop "continue" span σ
  | .assert c _ _ => c.tells σ
  | .assertFails e _ _ => e.tells σ
  | .function decl span => .introduce decl.name span rfl (decl.tells .function (σ.define decl.name))
  | .class name parent methods span => class_tells name parent span (methods_tell _ methods)

theorem items_tell (σ : Standpoint) : ∀ is : List Item,
    Tells (Resolve.items is) σ (itemsSightings σ is) (σ.defineAll (is.flatMap Item.adds))
  | [] => .done σ
  | i :: is => by
    rw [List.flatMap_cons, Standpoint.defineAll_append]
    exact (i.tells σ).bind (items_tell (σ.after i) is)

theorem FunctionDecl.tells (role : FunctionRole) (σ : Standpoint) : ∀ decl : FunctionDecl,
    Tells (Resolve.function role decl) σ (decl.sightings role σ) σ
  | ⟨_, _, _, _, params, body, span⟩ =>
    function_tells (params_tell span params _) (items_tell _ body)

theorem methods_tell (σ : Standpoint) : ∀ ms : List FunctionDecl,
    Tells (Resolve.members ms) σ (methodsSightings σ ms) σ
  | [] => .done σ
  | m :: ms => (m.tells (Resolve.methodRole m) σ).bind (methods_tell σ ms)

end

/-! ## The whole program -/

/-- The resolver and the analysis give the same table, or the same first fault. -/
theorem resolve_eq_analyse (program : List Item) : resolve program = analyse program := by
  have htold : Told {} (itemsSightings {} program) _ (Resolve.items program {}) :=
    items_tell {} program {} ⟨.nil, rfl, rfl, rfl⟩
  unfold Told at htold
  show (Resolve.items program {}).map (fun p => p.2.distances) = _
  unfold analyse judgeSightings
  cases hf : firstFault? (itemsSightings {} program) with
  | some f =>
    rw [hf] at htold
    exact congrArg _ htold
  | none =>
    rw [hf] at htold
    obtain ⟨r, hr, -, hd⟩ := htold
    rw [hr]
    exact congrArg Except.ok hd

/-- If the computation succeeds, it leaves the height of the scopes, the function, the class and the
    loops as it found them. -/
def Resolve.Restores (x : Resolve Unit) : Prop :=
  ∀ r r', x r = .ok ((), r') → r'.scopes.length = r.scopes.length ∧ r'.function = r.function
    ∧ r'.classRole = r.classRole ∧ r'.loopDepth = r.loopDepth

/-- What leads to a standpoint with more declarations restores the rest. -/
theorem Resolve.Tells.restores {x : Resolve Unit}
    (h : ∀ σ, ∃ ss names, Tells x σ ss (σ.defineAll names)) : x.Restores := by
  intro r r' hx
  obtain ⟨σ, hσ⟩ := Resolver.Stands.exists_stands r
  obtain ⟨ss, names, htells⟩ := h σ
  have htold := htells r hσ
  unfold Told at htold
  cases hf : firstFault? ss with
  | some f =>
    rw [hf] at htold
    exact nomatch hx.symm.trans htold
  | none =>
    rw [hf] at htold
    obtain ⟨r₁, hr₁, hstands, -⟩ := htold
    obtain rfl : r' = r₁ := congrArg Prod.snd (Except.ok.inj (hx.symm.trans hr₁))
    obtain ⟨hscopes, hfunction, hclass, hloops⟩ := σ.same_defineAll names
    refine ⟨?_, ?_, ?_, ?_⟩
    · rw [hstands.scopes.length_eq, hscopes, hσ.scopes.length_eq]
    · rw [hstands.function, hfunction, hσ.function]
    · rw [hstands.classRole, hclass, hσ.classRole]
    · rw [hstands.loops, hloops, hσ.loops]

/-- The resolver is the analysis by standpoints. It fails exactly with the first misuse; otherwise an id
    has the distance of the last local reference with it. If no id is used twice, this is how many
    scopes out the reference finds the innermost declaration of its name, and a global reference has
    none. No part of the resolver that succeeds leaves a trace in the scopes, the roles and the
    loops around. -/
theorem resolve_by_standpoints :
    (∀ program, resolve program = analyse program)
      ∧ (∀ program f, resolve program = .error f ↔ ∃ before s after,
          itemsSightings {} program = before ++ s :: after ∧ (∀ b ∈ before, ∀ g, ¬ Misuse b g)
            ∧ Misuse s f)
      ∧ (∀ program d, resolve program = .ok d →
          (∀ id n, d.get? id = some n ↔ ∃ before s after,
            itemsSightings {} program = before ++ s :: after ∧ s.Refers id n
              ∧ ∀ later ∈ after, ∀ m, ¬ later.Refers id m)
          ∧ ((itemsIds program).Nodup → ∀ s ∈ itemsSightings {} program, ∀ ident, s.ident? = some ident →
              (∀ n, d.get? ident.id = some n ↔ s.place.DeclaredAt ident.name n)
                ∧ (d.get? ident.id = none ↔ ∀ scope ∈ s.place.scopes, ident.name ∉ scope.names)))
      ∧ (∀ e, (Resolve.expr e).Restores) ∧ (∀ es, (Resolve.exprs es).Restores)
      ∧ (∀ e, (Resolve.optionalExpr e).Restores) ∧ (∀ i, (Resolve.item i).Restores)
      ∧ (∀ is, (Resolve.items is).Restores) ∧ (∀ role decl, (Resolve.function role decl).Restores)
      ∧ ∀ ms, (Resolve.members ms).Restores := by
  refine ⟨resolve_eq_analyse, fun program f => ?_, fun program d h => ?_, fun e => ?_, fun es => ?_,
    fun e => ?_, fun i => ?_, fun is => ?_, fun role decl => ?_, fun ms => ?_⟩
  · rw [resolve_eq_analyse]
    exact judgeSightings_eq_error_iff
  · rw [resolve_eq_analyse] at h
    refine ⟨fun id n => judgeSightings_get?_eq_some_iff h, fun hnodup s hs ident hident => ?_⟩
    rw [judgeSightings_own h (sightingsIds_nodup hnodup) hs hident]
    exact ⟨fun n => Standpoint.distance?_eq_some_iff, Standpoint.distance?_eq_none_iff⟩
  · exact Tells.restores fun σ => ⟨_, [], e.tells σ⟩
  · exact Tells.restores fun σ => ⟨_, [], exprs_tell σ es⟩
  · exact Tells.restores fun σ => ⟨_, [], option_tells σ e⟩
  · exact Tells.restores fun σ => ⟨_, _, i.tells σ⟩
  · exact Tells.restores fun σ => ⟨_, _, items_tell σ is⟩
  · exact Tells.restores fun σ => ⟨_, [], decl.tells role σ⟩
  · exact Tells.restores fun σ => ⟨_, [], methods_tell σ ms⟩

/-- A parameter is read through the scopes of two functions and a subclass inside them. -/
theorem resolve_by_standpoints_subclass :
    ∃ (items : List Item) (d : Distances) (s : Sighting) (ident : Ident),
      parseText .resume 0 "" "fun f(a) { class B < C { m() { fun g() { super.m(a); } } } }" = .ok items
        ∧ resolve items = .ok d ∧ (itemsIds items).Nodup ∧ s ∈ itemsSightings {} items
        ∧ s.ident? = some ident ∧ ident.name = "a" ∧ d.get? ident.id = some 4
        ∧ s.place.DeclaredAt ident.name 4 := by
  have hcheck : (parseText .resume 0 "" "fun f(a) { class B < C { m() { fun g() { super.m(a); } } } }"
      ).toOption.any (fun items => (resolve items).toOption.any fun d => (itemsSightings {} items).any fun s =>
        s.ident?.any fun ident => ident.name = "a" ∧ d.get? ident.id = some 4) = true := by
    decide +kernel
  obtain ⟨items, hparsed, hcheck⟩ := (Option.any_eq_true _ _).1 hcheck
  obtain ⟨d, hresolved, hcheck⟩ := (Option.any_eq_true _ _).1 hcheck
  obtain ⟨s, hs, hcheck⟩ := List.any_eq_true.1 hcheck
  obtain ⟨ident, hident, hcheck⟩ := (Option.any_eq_true _ _).1 hcheck
  obtain ⟨hname, hd⟩ := of_decide_eq_true hcheck
  have hparsed := Outcome.toOption_eq_some.1 hparsed
  have hresolved := Outcome.toOption_eq_some.1 hresolved
  have hnodup := (parseText_tree hparsed).2
  have hown := (resolve_by_standpoints.2.2.1 items d hresolved).2 hnodup s hs ident hident
  exact ⟨items, d, s, ident, hparsed, hresolved, hnodup, hs, hident, hname, hd, (hown.1 4).1 hd⟩

end Eleu
