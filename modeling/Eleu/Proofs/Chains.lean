import Eleu.Proofs.Machine.Settled
import Eleu.Proofs.Store.Search
import Eleu.Proofs.Walker.Phases

/-! # Chains in reachable states

    In every state that an executor reaches, whatever programs it was given, the scopes around a scope
    and the superclasses of a class come to an end, and what was once a parent or a superclass stays
    one. All searches along them therefore have a result. -/

namespace Eleu

variable {o : Options}

theorem Machine.Reachable.searchable (ho : o.HonestHost) {m : Machine} (h : m.Reachable o) :
    m.world.store.Searchable :=
  (h.from ho).store.searchable

theorem Phase.Reachable.searchable (ho : o.HonestHost) {p : Phase} (h : p.Reachable o) :
    (p.store o).Searchable :=
  (h.founded ho).searchable

/-- In every reachable state of either executor the chains of scopes and of superclasses end, and the
    searches along them find what they would find without a bound; from one state to the next, parents
    and superclasses stay. Sessions do not leave the reachable states. -/
theorem chains_founded (o : Options) (ho : o.HonestHost) :
    (∀ m : Machine, m.Reachable o → m.world.store.Searchable
        ∧ ∀ m', m.Next o m' → m.world.store.Extends m'.world.store)
      ∧ (∀ p : Phase, p.Reachable o → (p.store o).Searchable
        ∧ ∀ q, p.Next o q → (p.store o).Extends (q.store o))
      ∧ ∀ fuel requests,
        (∃ m, (Session.ofMachine.serveAll o fuel requests).2.executor = .machine m ∧ m.Reachable o)
          ∧ ∃ w, (Session.ofWalker.serveAll o fuel requests).2.executor = .walker w
            ∧ (Phase.idle w).Reachable o := by
  refine ⟨fun m hm => ⟨hm.searchable ho, fun m' hn => ?_⟩, fun p hp => ⟨hp.searchable ho, fun q hn => ?_⟩,
    fun fuel requests => ⟨?_, ?_⟩⟩
  · exact ((hm.from ho).next ho hn).extends
  · exact hn.extends ho
  · exact Session.OnReachable.serveAll ⟨_, rfl, .fresh⟩ fuel requests
  · exact Session.OnPhases.serveAll ⟨_, rfl, .fresh⟩ fuel requests

/-- A class that was reopened through the name it was declared with, after another variable and then
    the name of its superclass were given other values. -/
theorem chains_founded_reopened : ∃ (m : Machine) (w : Walker),
    (Session.ofMachine.serveAll {} 60
        [.run "" "class A {} class B < A {} var C = A; class B < C { f() {} } A = 1;"]).2.executor
          = .machine m
      ∧ m.world.store.Searchable ∧ m.world.store.superclass? 1 = some 0
      ∧ (Session.ofWalker.serveAll {} 60
        [.run "" "class A {} class B < A {} var C = A; class B < C { f() {} } A = 1;"]).2.executor
          = .walker w
      ∧ w.world.store.Searchable ∧ w.world.store.superclass? 1 = some 0 := by
  have hchain :
      (Session.ofMachine.serveAll {} 60
        [.run "" "class A {} class B < A {} var C = A; class B < C { f() {} } A = 1;"]
        ).2.executor.world.store.superclass? 1 = some 0
      ∧ (Session.ofWalker.serveAll {} 60
        [.run "" "class A {} class B < A {} var C = A; class B < C { f() {} } A = 1;"]
        ).2.executor.world.store.superclass? 1 = some 0 := by
    decide +kernel
  obtain ⟨hmachines, hphases, hsessions⟩ := chains_founded {} honest_default
  obtain ⟨⟨m, hm, hreach⟩, w, hw, hreach'⟩ := hsessions 60
    [.run "" "class A {} class B < A {} var C = A; class B < C { f() {} } A = 1;"]
  rw [hm, hw] at hchain
  exact ⟨m, w, hm, (hmachines m hreach).1, hchain.1, hw, (hphases _ hreach').1, hchain.2⟩

end Eleu
