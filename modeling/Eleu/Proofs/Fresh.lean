import Eleu.Proofs.Library.Host
import Eleu.Proofs.Machine.Reachable

/-! # Executors before their first program

    A host makes an executor, defines its natives among the globals, and only then runs a program.
    Both executors are the same up to there: a store with the library and the natives, and nothing
    else. -/

namespace Eleu

/-- A native of the host: its name and its parameters. -/
abbrev HostNative := String × List String

/-- Defines natives of the host among the globals. -/
def Walker.withNatives (w : Walker) (ns : List HostNative) : Walker :=
  ns.foldl (fun w n => w.defineNative n.1 n.2) w

/-- Defines natives of the host among the globals. -/
def Machine.withNatives (m : Machine) (ns : List HostNative) : Machine :=
  ns.foldl (fun m n => m.defineNative n.1 n.2) m

/-- The store with natives of the host in the environment `e`. -/
def Store.withNatives (s : Store) (e : EnvRef) (ns : List HostNative) : Store :=
  ns.foldl (fun s n => s.defineNative e n.1 n.2 .host) s

/-- The store that a run starts with. -/
def Store.hosted (ns : List HostNative) : Store :=
  ((({} : Store).newEnv none).2.installLibrary 0).withNatives 0 ns

theorem Walker.withNatives_eq (w : Walker) (ns : List HostNative) :
    w.withNatives ns =
      { w with world := { w.world with store := w.world.store.withNatives w.globals ns } } := by
  induction ns generalizing w with
  | nil => rfl
  | cons n ns ih => exact ih (w.defineNative n.1 n.2)

theorem Machine.withNatives_eq (m : Machine) (ns : List HostNative) :
    m.withNatives ns =
      { m with world := { m.world with store := m.world.store.withNatives m.globals ns } } := by
  induction ns generalizing m with
  | nil => rfl
  | cons n ns ih => exact ih (m.defineNative n.1 n.2)

theorem Walker.hosted_eq (ns : List HostNative) :
    Walker.fresh.withNatives ns = { world := { store := .hosted ns }, globals := 0, env := 0 } :=
  Walker.withNatives_eq _ ns

theorem Machine.hosted_eq (ns : List HostNative) :
    Machine.fresh.withNatives ns = { world := { store := .hosted ns }, globals := 0, env := 0 } :=
  Machine.withNatives_eq _ ns

variable {K : String → Prop} {L : StoreLaw K}

theorem Store.Ready.withNatives {s : Store} {e : EnvRef} (h : s.Ready L e) (ns : List HostNative) :
    (s.withNatives e ns).Ready L e := by
  induction ns generalizing s with
  | nil => exact h
  | cons n ns ih =>
    exact ih ⟨h.1.defineNative h.2 _ _ _, h.2.grows (K := K) (.defineNative h.2 _ _ _)⟩

/-- The store that a run starts with has no functions of a script. -/
theorem Store.ready_hosted (ns : List HostNative) : (Store.hosted ns).Ready L 0 :=
  ready_library.withNatives ns

/-- The walker, with natives of the host, when it sets about a program with the given distances. -/
def Walker.beginning (ns : List HostNative) (d : Distances) : Walker :=
  (Walker.fresh.withNatives ns).started d

/-- The machine, with natives of the host, when it sets about a program. -/
def Machine.beginning (ns : List HostNative) (items : List Item) : Machine :=
  ((Machine.fresh.withNatives ns).start items).2

theorem Walker.beginning_eq (ns : List HostNative) (d : Distances) :
    Walker.beginning ns d =
      { world := { store := .hosted ns }, globals := 0, env := 0
        distances := ({} : Distances).union d } := by
  rw [Walker.beginning, Walker.hosted_eq]
  rfl

/-- The run of a program that can be resolved. -/
theorem Walker.run_eq {o : Options} {items : List Item} {d : Distances} (ns : List HostNative) {n : Nat}
    (hr : resolve items = .ok d) :
    (Walker.fresh.withNatives ns).run o n items
      = report o (Walk.program o n items (.beginning ns d)) :=
  Walker.run_resolved hr o n _

end Eleu
