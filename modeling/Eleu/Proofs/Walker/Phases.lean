import Eleu.Proofs.Walker.Settled
import Eleu.Session

/-! # Reachable states of the walker

    Between two programs the walker is idle. While it runs one, its states are those in which a visit
    is begun and those in which it has ended, together with the visits around it that are not over
    yet. `Phase.Next` is the order in which they follow each other. No request of a host leads out of
    the reachable phases (`Session.OnPhases.serveAll`). -/

namespace Eleu

/-- The two walkers have the same store and the same environment. -/
def Walker.SameScope (w w' : Walker) : Prop := w'.world.store = w.world.store ∧ w'.env = w.env

/-- A report leaves the store alone. -/
theorem Walker.sameScope_report (o : Options) (x : EStateM.Result Interrupt Walker Unit) :
    (Outcome.state x).SameScope (report o x).2 := by
  fun_cases report o x with
  | case1 w | case2 w | case3 f w => exact ⟨rfl, rfl⟩
  | case4 f w => exact ⟨World.store_reportFault .., rfl⟩

/-- Where the walker is. The visits that are not over yet stand below, the innermost first. -/
inductive Phase where
  | idle (w : Walker)
  | begun (v : Visit) (below : List Visit)
  | ended (v : Visit) (below : List Visit)

namespace Phase

/-- The state of the walker. -/
def walker (o : Options) : Phase → Walker
  | .idle w => w
  | .begun v _ => v.state
  | .ended v _ => v.final o

/-- The store of the walker. -/
def store (o : Options) (p : Phase) : Store := (p.walker o).world.store

/-- What can happen to the walker between two programs, and how one visit follows another while it runs
    one. Only programs that the parser has built are run. -/
inductive Next (o : Options) : Phase → Phase → Prop where
  | defineNative {w : Walker} (name : String) (params : List String) :
      Next o (.idle w) (.idle (w.defineNative name params))
  /-- A source text was refused. -/
  | complained {w : Walker} (lines : List String) :
      Next o (.idle w) (.idle { w with world := w.world.complainAll lines })
  /-- A program was refused. -/
  | refused {w : Walker} {items : List Item} {f : Fault} (refused : resolve items = .error f)
      (fuel : Nat) : Next o (.idle w) (.idle (w.run o fuel items).2)
  | start {w : Walker} {r : Recovery} {unit : Nat} {file source : String} {items : List Item}
      {d : Distances} (parsed : parseText r unit file source = .ok items)
      (resolved : resolve items = .ok d) (fuel : Nat) :
      Next o (.idle w) (.begun ⟨fuel, .program items, w.started d⟩ [])
  /-- A visit calls another one. -/
  | call {v u : Visit} {below : List Visit} (calls : v.Calls o u) :
      Next o (.begun v below) (.begun u (v :: below))
  /-- A visit calls another one after one that has ended. -/
  | again {v u u' : Visit} {below : List Visit} (calls : v.Calls o u') (state : u'.state = u.final o) :
      Next o (.ended u (v :: below)) (.begun u' (v :: below))
  /-- A visit that calls none, or whose calls are not looked at. -/
  | finish {v : Visit} {below : List Visit} : Next o (.begun v below) (.ended v below)
  /-- A visit ends after one that it has called. -/
  | return {v u : Visit} {below : List Visit} (calls : v.Calls o u) :
      Next o (.ended u (v :: below)) (.ended v below)
  /-- The run is over, and is reported. -/
  | report {w : Walker} {items : List Item} {d : Distances} (resolved : resolve items = .ok d) {fuel : Nat} :
      Next o (.ended ⟨fuel, .program items, w.started d⟩ []) (.idle (w.run o fuel items).2)

/-- The states of a walker that a host uses. -/
inductive Reachable (o : Options) : Phase → Prop where
  | fresh : Reachable o (.idle .fresh)
  | next {p q : Phase} (h : Reachable o p) (hn : p.Next o q) : Reachable o q

variable {o : Options} {O : Origin}

/-- A program that is refused leaves the store alone. -/
theorem sameScope_refused {items : List Item} {f : Fault} (h : resolve items = .error f) (fuel : Nat)
    (w : Walker) : w.SameScope (w.run o fuel items).2 := by
  rw [Walker.run_refused h]
  exact ⟨rfl, rfl⟩

/-- The report at the end of a run leaves the store alone. -/
theorem sameScope_reported {items : List Item} {d : Distances} (h : resolve items = .ok d) (fuel : Nat)
    (w : Walker) : (Visit.final o ⟨fuel, .program items, w.started d⟩).SameScope (w.run o fuel items).2 := by
  rw [Walker.run_resolved h]
  exact Walker.sameScope_report o _

/-! ## From program to program -/

/-- An idle walker satisfies `P`, and so did the walker to which a program was given that is running. -/
def Since (P : Walker → Prop) : Phase → Prop
  | .idle w => P w
  | .begun v below | .ended v below =>
    ∃ (w : Walker) (fuel : Nat) (items : List Item) (d : Distances), P w
      ∧ (∃ r unit file source, parseText r unit file source = .ok items) ∧ resolve items = .ok d
      ∧ (v :: below).getLast (List.cons_ne_nil v below) = ⟨fuel, .program items, w.started d⟩

/-- What holds of a fresh walker, and is kept by all that a host can ask of an idle one, holds of every
    idle walker. A program that is run was parsed, or is refused. -/
theorem Reachable.idle_induction {P : Walker → Prop} (fresh : P .fresh)
    (defineNative : ∀ w name params, P w → P (w.defineNative name params))
    (complained : ∀ w lines, P w → P { w with world := w.world.complainAll lines })
    (refused : ∀ w fuel items f, resolve items = .error f → P w → P (w.run o fuel items).2)
    (run : ∀ w fuel items d, (∃ r unit file source, parseText r unit file source = .ok items) →
      resolve items = .ok d → P w → P (w.run o fuel items).2)
    {w : Walker} (h : (Phase.idle w).Reachable o) : P w := by
  have since : ∀ p : Phase, p.Reachable o → p.Since P := by
    intro p hp
    induction hp with
    | fresh => exact fresh
    | next _ hn ih =>
      cases hn with
      | defineNative name params => exact defineNative _ _ _ ih
      | complained lines => exact complained _ _ ih
      | refused hr fuel => exact refused _ _ _ _ hr ih
      | start parsed resolved fuel => exact ⟨_, fuel, _, _, ih, ⟨_, _, _, _, parsed⟩, resolved, rfl⟩
      | call calls | again calls state | finish | «return» calls => exact ih
      | @report w items d resolved fuel =>
        -- the walker that is reported on is the one that the program was given to, as far as
        -- the run can tell
        obtain ⟨w', fuel', items', d', hw', parsed, resolved', hlast⟩ := ih
        obtain ⟨rfl, htask, hstarted⟩ := Visit.mk.inj hlast
        cases htask
        have hrun := run w' fuel items d' parsed resolved' hw'
        rw [Walker.run_resolved resolved', ← hstarted] at hrun
        show P (w.run o fuel items).2
        rw [Walker.run_resolved resolved]
        exact hrun
  exact since _ h

/-! ## Later stores extend earlier ones -/

/-- From one phase to the next the walker only adds to the store. -/
theorem Next.extends (ho : o.HonestHost) {p q : Phase} (h : p.Next o q) :
    (p.store o).Extends (q.store o) := by
  cases h with
  | @defineNative w name params =>
    have h : w.world.store.Extends (w.world.store.newNative name params .host).2 :=
      Store.Grows.extends (.of_eq rfl rfl)
    exact h.trans (Store.Grows.define _ _ (.inl id) _).extends
  | complained lines =>
    show Store.Extends _ (World.complainAll _ lines).store
    rw [World.store_complainAll]
    exact .refl _
  | @refused w _ _ hr fuel =>
    show w.world.store.Extends (w.run o fuel _).2.world.store
    rw [(sameScope_refused hr fuel w).1]
    exact .refl _
  | start => exact .refl _
  | call calls => exact calls.extends ho
  | @again v u u' _ calls state =>
    show (u.final o).world.store.Extends u'.state.world.store
    rw [state]
    exact .refl _
  | @finish v _ => exact v.extends ho
  | «return» calls => exact calls.above ho (Store.Extends.refl _)
  | @report w items d hr fuel =>
    show Store.Extends _ (w.run o fuel items).2.world.store
    rw [(sameScope_reported hr fuel w).1]
    exact .refl _

/-! ## Reachable stores are founded -/

/-- The state of an idle walker is in order, and all visits come from the origin. -/
def From (O : Origin) : Phase → Prop
  | .idle w => w.world.store.Founded O.declared ∧ w.env < w.world.store.envs.size
  | .begun v below | .ended v below => ∀ u ∈ v :: below, u.From O

/-- What the next phase comes from. -/
theorem From.next (ho : o.HonestHost) {p q : Phase} (h : p.From .all) (hn : p.Next o q) :
    q.From .all := by
  cases hn with
  | @defineNative w name params =>
    have hd := Store.Evolves.defineNative h.1 w.globals name params .host
    exact ⟨hd.founded, Nat.lt_of_lt_of_le h.2 hd.extends.envs⟩
  | complained lines =>
    show Store.Founded _ (World.complainAll _ lines).store ∧ _ < (World.complainAll _ lines).store.envs.size
    rw [World.store_complainAll]
    exact h
  | @refused w _ _ hr fuel =>
    obtain ⟨hs, he⟩ := sameScope_refused (o := o) hr fuel w
    show Store.Founded _ (w.run o fuel _).2.world.store ∧ (w.run o fuel _).2.env < _
    rw [hs, he]
    exact h
  | start parsed resolved fuel =>
    -- any program will do: all places and declarations are in the widest origin
    intro u hu
    obtain rfl := List.mem_singleton.1 hu
    exact ⟨h.1, h.2, fun _ _ => trivial, fun _ _ => trivial, fun v hv => nomatch hv⟩
  | call calls =>
    intro u hu
    cases hu with
    | head => exact (h _ (.head _)).calls ho (Origin.all_admits o) calls
    | tail _ hu => exact h u hu
  | again calls state =>
    intro u hu
    cases hu with
    | head => exact (h _ (.tail _ (.head _))).calls ho (Origin.all_admits o) calls
    | tail _ hu => exact h u (.tail _ hu)
  | finish => exact h
  | «return» calls => exact fun u hu => h u (.tail _ hu)
  | @report w items d hr fuel =>
    have hv := (h _ (.head _)).final ho (Origin.all_admits o)
    obtain ⟨hs, he⟩ := sameScope_reported (o := o) hr fuel w
    show Store.Founded _ (w.run o fuel items).2.world.store ∧ (w.run o fuel items).2.env < _
    rw [hs, he, hv.env]
    exact ⟨hv.store.founded, Nat.lt_of_lt_of_le (h _ (.head _)).env hv.store.extends.envs⟩

/-- A fresh walker has the library and nothing else. -/
theorem from_fresh : (Phase.idle .fresh).From O := Store.library_founded

/-- All reachable phases are in order. -/
theorem Reachable.from (ho : o.HonestHost) {p : Phase} (h : p.Reachable o) : p.From .all := by
  induction h with
  | fresh => exact from_fresh
  | next _ hn ih => exact ih.next ho hn

theorem Reachable.founded (ho : o.HonestHost) {p : Phase} (h : p.Reachable o) :
    (p.store o).Founded fun _ => True := by
  have hp := h.from ho
  cases p with
  | idle w => exact hp.1
  | begun v below => exact (hp v (.head _)).store
  | ended v below => exact ((hp v (.head _)).final ho (Origin.all_admits o)).store.founded

end Phase

/-! ## Sessions -/

namespace Session

variable {o : Options}

/-- The executor of the session is a walker between two programs. -/
def OnPhases (o : Options) (s : Session) : Prop :=
  ∃ w, s.executor = .walker w ∧ (Phase.idle w).Reachable o

/-- A request leads from a reachable walker to one. -/
theorem OnPhases.serve {s : Session} (h : s.OnPhases o) (fuel : Nat) (r : Request) :
    (s.serve o fuel r).2.OnPhases o := by
  obtain ⟨w, hs, hw⟩ := id h
  unfold Session.serve
  rw [hs]
  cases r with
  | define name params =>
    rw [supports, if_pos rfl]
    unfold Session.answer
    rw [hs]
    exact ⟨_, rfl, hw.next (.defineNative name params)⟩
  | run file source =>
    rw [supports, if_pos rfl]
    show (s.withText o file source (runItems o fuel)).2.OnPhases o
    unfold Session.withText World.parse
    rw [hs]
    cases hp : parseText o.recovery s.units file source with
    | error errors => exact ⟨_, rfl, hw.next (.complained _)⟩
    | ok items =>
      refine ⟨(w.run o fuel items).2, rfl, ?_⟩
      cases hr : resolve items with
      | error f => exact hw.next (.refused hr fuel)
      | ok d => exact ((hw.next (.start hp hr fuel)).next .finish).next (.report hr)
  | start | step | stepWhile | interpret => exact h

theorem OnPhases.serveAll {s : Session} (h : s.OnPhases o) (fuel : Nat) (rs : List Request) :
    (s.serveAll o fuel rs).2.OnPhases o := by
  induction rs generalizing s with
  | nil => exact h
  | cons r rs ih => exact ih (h.serve fuel r)

end Session

end Eleu
