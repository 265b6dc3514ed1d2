import Eleu.Proofs.Code.Exits
import Eleu.Proofs.Code.Extents
import Eleu.Proofs.Code.Total
import Eleu.Proofs.Machine.FaultFree
import Eleu.Proofs.Tree.Origin

/-! # Generated code passes a static check

    The program that the resolver has accepted has code, and so has each function in it. The code can be
    checked without executing it: there are extents for all offsets on which all ways through the code
    agree (`Chunk.Consistent`), no way leaves the code but at the end of the program or by a return, and
    the exits of loops unwind as many scopes as were opened inside the loop. -/

namespace Eleu

open Outcome (except_bind_eq_ok)

/-- The functions in items that follow the rules follow them too. -/
theorem inherited_follows (R : Rules) (d : Distances) :
    Inherited (fun i => ∃ role loop Γ, i.Follows R d role loop Γ)
      (fun is => ∃ role loop Γ, itemsFollow R d role loop Γ is)
      (fun decl => ∃ Γ, decl.Follows R d decl.role Γ) (fun ms => ∃ Γ, methodsFollow R d Γ ms) where
  block := fun ⟨_, _, _, h⟩ => ⟨_, _, _, h⟩
  ifThen := fun ⟨_, _, _, h⟩ => ⟨_, _, _, h.2.2⟩
  ifElse := fun ⟨_, _, _, h⟩ => ⟨⟨_, _, _, h.2.1.2⟩, _, _, _, h.2.2.2⟩
  «while» := fun ⟨_, _, _, h⟩ => ⟨_, _, _, h.2.1.2⟩
  «repeat» := fun ⟨_, _, _, h⟩ => ⟨_, _, _, h.2.2⟩
  function {decl _} := fun ⟨_, _, _, h⟩ => ⟨_, decl.role_function h.1.1 ▸ h.2⟩
  «class» := fun ⟨_, _, _, h⟩ => ⟨_, h.2.2⟩
  items := fun ⟨_, _, _, h⟩ => ⟨⟨_, _, _, h.1⟩, _, _, _, h.2⟩
  body := fun ⟨_, h⟩ => ⟨_, _, _, (FunctionDecl.follows_iff.1 h).2.2.2⟩
  methods {m _} := fun ⟨_, h⟩ => ⟨⟨_, m.role_method h.1.1 ▸ h.1.2⟩, _, h.2⟩

/-! ## Chunks -/

/-- The chunk is what the generator makes of the root: the code of every part stands in it, and the
    exits of loops unwind. -/
structure Chunk.Generated (chunk : Chunk) (root : Job) : Prop where
  stands : ∀ job, root.Leads job → job.Stands chunk.instr?
  unwinds : root.Unwinds

/-- All offsets that the instructions of the chunk lead to satisfy `P`. -/
def Chunk.LeadsOnly (chunk : Chunk) (P : Nat → Prop) : Prop :=
  ∀ (n : Nat) (i : Instr), chunk.instr? n = some i → ∀ t ∈ i.op.successors n, P t

/-- Before every return the instance is looked up, one scope outside those that are open. -/
def Chunk.ReturnsThis (chunk : Chunk) (H : Nat → Extent) : Prop :=
  ∀ (n : Nat) (span : Option Span), chunk.instr? n = some ⟨.return, span⟩ →
    ∃ (m : Nat) (s : Option Span), n = m + 1
      ∧ chunk.instr? m = some ⟨.lookup "this" (some ((H m).depth + 1)), s⟩

/-! ## Shapes of one frame -/

theorem Expr.initialises_shapes {e : Expr} {l k : Shape} (h : k ∈ e.shapes l) :
    k.initialises = l.initialises := by
  obtain ⟨n, -, rfl⟩ := List.mem_map.1 h
  rfl

mutual

/-- All shapes inside the code of an item are those of one and the same frame. -/
theorem Item.initialises_shapes : ∀ (i : Item) {unwind n : Nat} {l k : Shape},
    k ∈ i.shapes unwind n l → k.initialises = l.initialises
  | .block items span, _, _, l, k, h => by
    have := @initialises_itemsShapes items
    grind [Item.shapes, Shape.enter]
  | .ifThen _ t _, _, _, _, _, h => by
    have := @t.initialises_shapes
    grind [Item.shapes, Shape.push, Expr.initialises_shapes]
  | .ifElse _ t e _, _, _, _, _, h => by
    have := @t.initialises_shapes
    have := @e.initialises_shapes
    grind [Item.shapes, Shape.push, Expr.initialises_shapes]
  | .while _ body inc _, _, _, _, _, h => by
    have := @body.initialises_shapes
    cases inc <;> grind [Item.shapes, incrementShapes, Shape.push, Expr.initialises_shapes]
  | .repeat _ body _, _, _, _, _, h => by
    have := @body.initialises_shapes
    grind [Item.shapes, Shape.push, Expr.initialises_shapes]
  | .var _ init _, _, _, _, _, h => by
    cases init <;> grind [Item.shapes, initShapes, Shape.push, Expr.initialises_shapes]
  | .expr _ _, _, _, _, _, h | .return none _, _, _, _, _, h | .return (some _) _, _, _, _, _, h
  | .break _, _, _, _, _, h | .continue _, _, _, _, _, h | .assert _ _ _, _, _, _, _, h
  | .assertFails _ _ _, _, _, _, _, h | .function _ _, _, _, _, _, h
  | .class _ none _ _, _, _, _, _, h | .class _ (some _) _ _, _, _, _, _, h => by
    grind [Item.shapes, leaveShapes, Shape.leave, Shape.push, Shape.guarded, Shape.flagged,
      Expr.initialises_shapes]

theorem initialises_itemsShapes : ∀ (is : List Item) {unwind n : Nat} {l k : Shape},
    k ∈ itemsShapes unwind n l is → k.initialises = l.initialises
  | i :: is, _, _, _, _, h => by
    have := @i.initialises_shapes
    have := @initialises_itemsShapes is
    grind [itemsShapes, Shape.past]

end

variable {R : Rules} {d : Distances} {name : String} {items : List Item} {decl : FunctionDecl}
  {chunk : Chunk}

theorem programChunk_size (hc : programChunk d name items = .ok chunk) :
    chunk.ops.size = itemsSize 0 items := by
  simp only [programChunk, except_bind_eq_ok, Except.ok.injEq] at hc
  obtain ⟨code, hcode, rfl⟩ := hc
  rw [Chunk.size_addAll]
  exact length_itemsCode (c := { distances := d }) items (fun _ hx => (nomatch hx)) hcode

theorem Job.stands_program (hc : programChunk d name items = .ok chunk) :
    (Job.items { distances := d } 0 items).Stands chunk.instr? := by
  simp only [programChunk, except_bind_eq_ok, Except.ok.injEq] at hc
  obtain ⟨code, hcode, rfl⟩ := hc
  refine ⟨code, hcode, ?_⟩
  rw [funext (Chunk.instr?_addAll name code)]
  exact segment_self code

theorem Job.stands_function (hc : functionChunk d decl = .ok chunk) :
    (Job.items { distances := d, initialiser := decl.isInitialiser } 0 decl.body).Stands
      chunk.instr? := by
  simp only [functionChunk, except_bind_eq_ok, Except.ok.injEq] at hc
  obtain ⟨code, hcode, rfl⟩ := hc
  refine ⟨code, hcode, ?_⟩
  rw [funext (Chunk.instr?_addAll _ _)]
  exact (Segment.append.1 (segment_self _)).1

/-- The chunk of a program that follows the rules. -/
theorem programChunk_checked (hR : R.Stable) (hc : programChunk d name items = .ok chunk)
    (hf : itemsFollow R d none false [] items) :
    ∃ H, chunk.Consistent H
      ∧ chunk.LeadsOnly (· ≤ chunk.ops.size)
      ∧ H chunk.ops.size = ⟨0, 0⟩ ∧ chunk.Generated (.items { distances := d } 0 items) := by
  have hb := programShapes_balanced hR hc hf
  have hstart : extents ((programShapes items)[·]?) 0 = ⟨0, 0⟩ := extents_eq (programShapes_start items)
  refine ⟨_, hb.consistent hstart, fun n i hi t ht => ?_, ?_, ?_, Job.unwinds rfl hf 0⟩
  · rcases hb.within hi ht with hlt | ⟨-, rfl⟩
    · exact Nat.le_of_lt hlt
    · exact Nat.le_refl _
  · have hend : ((programShapes items)[·]?) chunk.ops.size = some (({} : Shape).pastAll items) := by
      rw [programChunk_size hc, ← Nat.zero_add (itemsSize 0 items)]
      exact (programShapes_segment items).2
    rw [extents_eq hend]
    exact congrArg (Extent.mk 0) (length_itemsAfter items [])
  · exact fun job => (Job.stands_program hc).leads

/-- The chunk of a function whose body follows the rules. -/
theorem functionChunk_checked (hR : R.Stable) {role : FunctionRole}
    (hc : functionChunk d decl = .ok chunk) (hf : itemsFollow R d (some role) false [] decl.body)
    (hrole : decl.isInitialiser = true → role = .initialiser)
    (hret : decl.isInitialiser = true → R.returns [] 1) :
    ∃ H, chunk.Consistent H
      ∧ chunk.LeadsOnly (· < chunk.ops.size)
      ∧ chunk.ops.back? = some .return
      ∧ (decl.isInitialiser = true → chunk.ReturnsThis H)
      ∧ chunk.Generated
        (.items { distances := d, initialiser := decl.isInitialiser } 0 decl.body) := by
  have hb := bodyShapes_balanced hR hc hf hret decl.isInitialiser fun hinit => ⟨hinit, hrole hinit, rfl⟩
  have hstart := extents_eq
    (bodyShapes_start { call := true, initialises := decl.isInitialiser } decl.body)
  refine ⟨_, hb.consistent hstart, fun n i hi t ht => ?_, ?_, fun hinit n span hi => ?_, ?_,
    Job.unwinds rfl hf 0⟩
  · rcases hb.within hi ht with hlt | ⟨hcall, -⟩
    · exact hlt
    · exact nomatch hcall
  · simp only [functionChunk, except_bind_eq_ok, Except.ok.injEq] at hc
    obtain ⟨code, hcode, rfl⟩ := hc
    simp [Chunk.addAll, Surroundings.bareReturn, List.foldl_append, Chunk.add]
  · obtain ⟨l, hl, -, hreturn, -⟩ := hb.fits hi
    have hl' : l.initialises = true := by
      rcases List.mem_append.1 (List.mem_of_getElem? hl) with hmem | hmem
      · exact (initialises_itemsShapes _ hmem).trans hinit
      · obtain rfl | hmem := List.mem_cons.1 hmem
        · exact hinit
        · obtain rfl := List.mem_singleton.1 hmem
          exact hinit
    obtain ⟨m, s, rfl, hm⟩ := hreturn hl'
    -- the scopes are those of the shape before the instance was looked up
    obtain ⟨k, hk, ⟨-, k', -, rfl, hnext⟩, -⟩ := hb.fits hm
    cases hl.symm.trans hnext
    refine ⟨m, s, rfl, ?_⟩
    rw [extents_eq hk]
    exact hm
  · exact fun job => (Job.stands_function hc).leads

/-- A program that was parsed and resolved has code, and so has every function in it. One assignment of
    extents to offsets is right for all instructions of a chunk; no jump leaves the chunk; a program ends
    as it began and a function with a return, of the instance if it is an initialiser. -/
theorem code_checked {r : Recovery} {unit : Nat} {file source : String} {items : List Item}
    {d : Distances} (parsed : parseText r unit file source = .ok items)
    (resolved : resolve items = .ok d) :
    (∀ name, ∃ chunk H, programChunk d name items = .ok chunk ∧ chunk.Consistent H
        ∧ chunk.LeadsOnly (· ≤ chunk.ops.size)
        ∧ H chunk.ops.size = ⟨0, 0⟩
        ∧ chunk.Generated (.items { distances := d } 0 items))
      ∧ ∀ decl ∈ declarationsIn items, ∃ chunk H, functionChunk d decl = .ok chunk
        ∧ chunk.Consistent H
        ∧ chunk.LeadsOnly (· < chunk.ops.size)
        ∧ chunk.ops.back? = some .return
        ∧ (decl.isInitialiser = true → chunk.ReturnsThis H)
        ∧ chunk.Generated
          (.items { distances := d, initialiser := decl.isInitialiser } 0 decl.body) := by
  obtain ⟨hregular, hids⟩ := parseText_tree parsed
  have hfollows := resolve_noted resolved hregular hids
  rw [union_resolved resolved] at hfollows
  refine ⟨fun name => ?_, fun decl hdecl => ?_⟩
  -- that there is code needs the exact distances, that it is right does not
  · have hexact := items_transfer (Rules.transfer_exact _ _ d) items rfl hfollows
    obtain ⟨chunk, hchunk⟩ := programChunk_total name hexact
    obtain ⟨H, h⟩ := programChunk_checked (Rules.stable_exact _ _ d) hchunk hexact
    exact ⟨chunk, H, hchunk, h⟩
  · obtain ⟨Δ, hdeclared⟩ := (inherited_follows _ _).inItems items ⟨_, _, _, hfollows⟩ decl hdecl
    obtain ⟨chunk, hchunk⟩ := @Setting.exact_chunk _ _ _ .all _ _ hdeclared
    obtain ⟨-, -, -, hbody⟩ := FunctionDecl.follows_iff.1 hdeclared
    have hlax : itemsFollow .lax d (some decl.role) false [] decl.body :=
      items_transfer (Rules.transfer_lax _ _ _) decl.body (fun _ => nofun) hbody
    obtain ⟨H, h⟩ := functionChunk_checked Setting.lax.stable hchunk hlax
      (Setting.isInitialiser_iff decl).1 fun _ => trivial
    exact ⟨chunk, H, hchunk, h⟩

/-- An initialiser that returns from a block in a loop, and a loop that is left from a block. -/
theorem code_checked_initialiser : ∃ items d decl,
    parseText .resume 0 "a"
        "class A { init() { while (true) { { return; } } } } while (true) { { break; } }" = .ok items
      ∧ resolve items = .ok d ∧ declarationsIn items = [decl] ∧ decl.isInitialiser = true
      ∧ (∃ chunk H, programChunk d "script" items = .ok chunk ∧ chunk.Consistent H
        ∧ H chunk.ops.size = ⟨0, 0⟩)
      ∧ ∃ chunk H, functionChunk d decl = .ok chunk ∧ chunk.Consistent H ∧ chunk.ReturnsThis H := by
  have hfacts : (parseText .resume 0 "a"
        "class A { init() { while (true) { { return; } } } } while (true) { { break; } }").toOption.map
      (fun items => ((resolve items).toOption.isSome, (declarationsIn items).map (·.isInitialiser)))
      = some (true, [true]) := by
    decide +kernel
  obtain ⟨items, hparse, hitems⟩ := Option.map_eq_some_iff.1 hfacts
  obtain ⟨hresolve, hdecls⟩ := Prod.mk.inj hitems
  obtain ⟨d, hd⟩ := Option.isSome_iff_exists.1 hresolve
  obtain ⟨decl, hdecl, hinit⟩ := List.map_eq_singleton_iff.1 hdecls
  have parsed := Outcome.toOption_eq_some.1 hparse
  have resolved := Outcome.toOption_eq_some.1 hd
  obtain ⟨hprogram, hfunctions⟩ := code_checked parsed resolved
  obtain ⟨chunk, H, hchunk, hH, -, hend, -⟩ := hprogram "script"
  obtain ⟨body, K, hbody, hK, -, -, hthis, -⟩ := hfunctions decl (by rw [hdecl]; exact .head _)
  exact ⟨items, d, decl, parsed, resolved, hdecl, hinit, ⟨chunk, H, hchunk, hH, hend⟩, body, K, hbody,
    hK, hthis hinit⟩

end Eleu
