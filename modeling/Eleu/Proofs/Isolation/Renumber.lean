import Eleu.Proofs.Isolation.Trees
import Eleu.Proofs.Scope.Resolved

/-! # Renumbered programs

    If no two ids get the same one, the resolver sees in a renumbered program what it sees in the
    original and notes the same distances under the new ids (`resolve_renumber`). -/

namespace Eleu

/-! ## Tables with other keys -/

namespace Table

variable {κ α : Type} [DecidableEq κ] {f : κ → κ}

/-- The table with other keys. -/
def mapKeys (f : κ → κ) (t : Table κ α) : Table κ α := ⟨t.entries.map fun e => (f e.1, e.2)⟩

theorem get?_mapKeys (hf : Function.Injective f) (t : Table κ α) (key : κ) :
    (t.mapKeys f).get? (f key) = t.get? key := by
  show find (f key) (t.entries.map fun e => (f e.1, e.2)) = find key t.entries
  induction t.entries with
  | nil => rfl
  | cons first rest ih =>
    rw [List.map_cons, find, find, ih]
    by_cases h : first.1 = key
    · rw [if_pos h, if_pos (congrArg f h)]
    · rw [if_neg h, if_neg fun hc => h (hf hc)]

theorem exists_of_get?_mapKeys {t : Table κ α} {key : κ} {a : α}
    (h : (t.mapKeys f).get? key = some a) : ∃ k, f k = key := by
  have h : find key (t.entries.map fun e => (f e.1, e.2)) = some a := h
  generalize t.entries = entries at h
  induction entries with
  | nil => exact nomatch h
  | cons first rest ih =>
    rw [List.map_cons, find] at h
    split at h
    · next hkey => exact ⟨first.1, hkey⟩
    · exact ih h

theorem mapKeys_insert (hf : Function.Injective f) (t : Table κ α) (key : κ) (a : α) :
    (t.insert key a).mapKeys f = (t.mapKeys f).insert (f key) a := by
  suffices h : ∀ entries : List (κ × α), (put key a entries).map (fun e => (f e.1, e.2))
      = put (f key) a (entries.map fun e => (f e.1, e.2)) from congrArg Table.mk (h t.entries)
  intro entries
  induction entries with
  | nil => rfl
  | cons first rest ih =>
    rw [List.map_cons, put, put]
    by_cases h : first.1 = key
    · rw [if_pos h, if_pos (congrArg f h), List.map_cons]
    · rw [if_neg h, if_neg fun hc => h (hf hc), List.map_cons, ih]

omit [DecidableEq κ] in
theorem Unique.mapKeys (hf : Function.Injective f) {t : Table κ α} (h : t.Unique) :
    (t.mapKeys f).Unique :=
  List.pairwise_map.2 (List.Pairwise.imp (fun hne hc => hne (hf hc)) h)

end Table

/-! ## Sightings -/

/-- A site with another id. -/
def Site.renumber (f : Nat → Nat) : Site → Site
  | .function id => .function (f id)
  | site => site

/-- A standpoint with other ids. -/
def Standpoint.renumber (f : Nat → Nat) (σ : Standpoint) : Standpoint :=
  { σ with scopes := σ.scopes.map fun s => { s with site := s.site.renumber f } }

/-- A mention with another id. -/
def Mention.renumber (f : Nat → Nat) : Mention → Mention
  | .reads ident span => .reads (ident.renumber f) span
  | .writes ident => .writes (ident.renumber f)
  | .this ident span => .this (ident.renumber f) span
  | .super ident span => .super (ident.renumber f) span
  | .inherits parent name span => .inherits (parent.renumber f) name span
  | mention => mention

/-- A sighting with other ids. -/
def Sighting.renumber (f : Nat → Nat) (s : Sighting) : Sighting := ⟨s.place.renumber f, s.mention.renumber f⟩

section

variable {f : Nat → Nat}

namespace Standpoint

theorem define_renumber (name : String) (σ : Standpoint) :
    (σ.define name).renumber f = (σ.renumber f).define name := by
  obtain ⟨scopes, function, classRole, loops⟩ := σ
  cases scopes <;> rfl

theorem declare_renumber (name : String) (σ : Standpoint) :
    (σ.declare name).renumber f = (σ.renumber f).declare name := by
  obtain ⟨scopes, function, classRole, loops⟩ := σ
  cases scopes <;> rfl

theorem defineAll_renumber (names : List String) (σ : Standpoint) :
    (σ.defineAll names).renumber f = (σ.renumber f).defineAll names := by
  induction names generalizing σ with
  | nil => rfl
  | cons name names ih => rw [defineAll, defineAll, ih, define_renumber]

theorem inClass_renumber (subclass : Bool) (span : Span) (σ : Standpoint) :
    (σ.inClass subclass span).renumber f = (σ.renumber f).inClass subclass span := by
  cases subclass <;> rfl

theorem distance?_renumber (name : String) (σ : Standpoint) :
    (σ.renumber f).distance? name = σ.distance? name := List.findIdx?_map ..

end Standpoint

theorem Item.adds_renumber : ∀ i : Item, (i.renumber f).adds = i.adds
  | .function ⟨_, _, _, _, _, _, _⟩ _ => rfl
  | .ifThen _ t _ | .while _ t _ _ | .repeat _ t _ => t.adds_renumber
  | .ifElse _ t e _ => congrArg₂ (· ++ ·) t.adds_renumber e.adds_renumber
  | .expr .. | .var .. | .block .. | .return .. | .break _ | .continue _ | .assert .. | .assertFails .. => rfl
  | .class .. => rfl

theorem Standpoint.after_renumber (i : Item) (σ : Standpoint) :
    (σ.after i).renumber f = (σ.renumber f).after (i.renumber f) := by
  rw [after, after, i.adds_renumber, defineAll_renumber]

/-- What is seen in two parts is seen in the renumbered parts. -/
theorem seen_renumber {ss ss' ts ts' : List Sighting} (h : ss' = ss.map (·.renumber f))
    (ht : ts' = ts.map (·.renumber f)) : ss' ++ ts' = (ss ++ ts).map (·.renumber f) := by
  rw [List.map_append, h, ht]

mutual

theorem Expr.sightings_renumber (σ : Standpoint) : ∀ e : Expr,
    (e.renumber f).sightings (σ.renumber f) = (e.sightings σ).map (·.renumber f)
  | .literal _ _ | .name _ _ | .this _ _ | .super _ _ _ => rfl
  | .list elements _ => exprsSightings_renumber σ elements
  | .assign _ value _ => seen_renumber (value.sightings_renumber σ) rfl
  | .unary _ operand _ => operand.sightings_renumber σ
  | .binary left _ right _ | .logical left _ right _ | .setField right _ left _ =>
    seen_renumber (left.sightings_renumber σ) (right.sightings_renumber σ)
  | .group inner _ => inner.sightings_renumber σ
  | .call callee args _ =>
    seen_renumber (callee.sightings_renumber σ) (exprsSightings_renumber σ args)
  | .getField object _ _ => object.sightings_renumber σ

theorem exprsSightings_renumber (σ : Standpoint) : ∀ es : List Expr,
    exprsSightings (σ.renumber f) (exprsRenumber f es) = (exprsSightings σ es).map (·.renumber f)
  | [] => rfl
  | e :: es => seen_renumber (e.sightings_renumber σ) (exprsSightings_renumber σ es)

end

theorem optionSightings_renumber (σ : Standpoint) (e : Option Expr) :
    optionSightings (σ.renumber f) (e.map (·.renumber f)) = (optionSightings σ e).map (·.renumber f) := by
  cases e with
  | none => rfl
  | some e => exact e.sightings_renumber σ

theorem paramsSightings_renumber (span : Span) (σ : Standpoint) (names : List String) :
    paramsSightings span (σ.renumber f) names = (paramsSightings span σ names).map (·.renumber f) := by
  induction names generalizing σ with
  | nil => rfl
  | cons name names ih =>
    rw [paramsSightings, ← Standpoint.define_renumber, ih]
    rfl

mutual

/-- In a renumbered item the same is seen, with other ids. -/
theorem Item.sightings_renumber (σ : Standpoint) : ∀ i : Item,
    (i.renumber f).sightings (σ.renumber f) = (i.sightings σ).map (·.renumber f)
  | .expr e _ | .assert e _ _ | .assertFails e _ _ => e.sightings_renumber σ
  | .var name init _ => by
    rw [Item.renumber, Item.sightings, ← Standpoint.declare_renumber, optionSightings_renumber]
    rfl
  | .block body span => itemsSightings_renumber (σ.enter (.block span)) body
  | .ifThen c t _ => seen_renumber (c.sightings_renumber σ) (t.sightings_renumber σ)
  | .ifElse c t e _ => by
    refine seen_renumber (c.sightings_renumber σ) (seen_renumber (t.sightings_renumber σ) ?_)
    rw [← Standpoint.after_renumber, e.sightings_renumber]
  | .while c body increment _ => by
    refine seen_renumber (c.sightings_renumber σ) (seen_renumber (body.sightings_renumber σ.inLoop) ?_)
    rw [← Standpoint.after_renumber, optionSightings_renumber]
  | .repeat count body _ =>
    seen_renumber (count.sightings_renumber σ) (body.sightings_renumber σ.inLoop)
  | .return value _ => by
    rw [Item.renumber, Item.sightings, Option.isSome_map, optionSightings_renumber]
    rfl
  | .break _ | .continue _ => rfl
  | .function decl span => by
    have hname : (decl.renumber f).name = decl.name := by rw [decl.renumber_eq]
    rw [Item.renumber, Item.sightings, hname, ← Standpoint.define_renumber, decl.sightings_renumber]
    rfl
  | .class name parent methods span => by
    rw [Item.renumber, Item.sightings, Option.isSome_map, ← Standpoint.define_renumber,
      ← Standpoint.inClass_renumber, methodsSightings_renumber]
    refine congrArg (List.cons _) (seen_renumber ?_ rfl)
    cases parent <;> rfl

theorem itemsSightings_renumber (σ : Standpoint) : ∀ is : List Item,
    itemsSightings (σ.renumber f) (itemsRenumber f is) = (itemsSightings σ is).map (·.renumber f)
  | [] => rfl
  | i :: is => by
    refine seen_renumber (i.sightings_renumber σ) ?_
    rw [← Standpoint.after_renumber, itemsSightings_renumber]

theorem FunctionDecl.sightings_renumber (role : FunctionRole) (σ : Standpoint) : ∀ decl : FunctionDecl,
    (decl.renumber f).sightings role (σ.renumber f) = (decl.sightings role σ).map (·.renumber f)
  | ⟨_, id, _, _, params, body, span⟩ => by
    refine seen_renumber (paramsSightings_renumber span (σ.inFunction role id) params) ?_
    rw [← itemsSightings_renumber, Standpoint.defineAll_renumber]
    rfl

theorem methodsSightings_renumber (σ : Standpoint) : ∀ ms : List FunctionDecl,
    methodsSightings (σ.renumber f) (methodsRenumber f ms) = (methodsSightings σ ms).map (·.renumber f)
  | [] => rfl
  | m :: ms => by
    have hrole : Resolve.methodRole (m.renumber f) = Resolve.methodRole m := by rw [m.renumber_eq]; rfl
    rw [methodsRenumber, methodsSightings, hrole]
    exact seen_renumber (m.sightings_renumber _ σ) (methodsSightings_renumber σ ms)

end

namespace Sighting

theorem fault?_renumber (s : Sighting) : (s.renumber f).fault? = s.fault? := by
  obtain ⟨⟨scopes, function, classRole, loops⟩, mention⟩ := s
  cases mention <;> first | rfl | (cases scopes <;> rfl)

theorem note_renumber (hf : Function.Injective f) (d : Distances) (s : Sighting) :
    (s.renumber f).note (d.mapKeys f) = (s.note d).mapKeys f := by
  have hident : (s.renumber f).ident? = s.ident?.map (·.renumber f) := by
    obtain ⟨σ, mention⟩ := s
    cases mention <;> rfl
  unfold note
  rw [hident]
  cases s.ident? with
  | none => rfl
  | some ident =>
    dsimp only [Option.map_some, Sighting.renumber, Ident.renumber]
    rw [Standpoint.distance?_renumber]
    cases s.place.distance? ident.name with
    | none => rfl
    | some n => exact (Table.mapKeys_insert hf ..).symm

end Sighting

/-- The resolver notes for a renumbered program the same distances under the new ids, and refuses it
    with the same fault. -/
theorem resolve_renumber (hf : Function.Injective f) (program : List Item) :
    resolve (itemsRenumber f program) = (resolve program).map fun d => d.mapKeys f := by
  have hseen := itemsSightings_renumber (f := f) {} program
  rw [resolve_eq_analyse, resolve_eq_analyse]
  unfold analyse judgeSightings firstFault?
  generalize itemsSightings {} program = ss at hseen ⊢
  have hfault : (ss.map (·.renumber f)).findSome? Sighting.fault? = ss.findSome? Sighting.fault? := by
    simp only [List.findSome?_map, Function.comp_def, Sighting.fault?_renumber]
  have hnotes : ∀ d : Distances, (ss.map (·.renumber f)).foldl Sighting.note (d.mapKeys f)
      = (ss.foldl Sighting.note d).mapKeys f := by
    intro d
    rw [List.foldl_map]
    exact (List.foldl_hom (Table.mapKeys f) fun d s => s.note_renumber hf d)
  rw [show itemsSightings {} (itemsRenumber f program) = _ from hseen, hfault]
  cases ss.findSome? Sighting.fault? with
  | some fault => rfl
  | none => exact congrArg Except.ok (hnotes {})

end

end Eleu
