import Eleu.Proofs.Code.Emitted
import Eleu.Proofs.Machine.Execute
import Eleu.Proofs.Machine.Footing

/-! # Rows of active frames

    A `Row` is an active frame together with its environment and with the shape that the code of
    its chunk has where the frame stands. `Machine.Runs` says that the frames, the environments to
    return to, the value stack and the handlers of a machine are those of its rows, one on top of
    the other: the frame on top has put exactly the values on the stack that its shape tells, each
    other frame awaits one value more than it has below the next frame, and the handlers are those
    that the shapes ask for.

    All of this is relative to a `Footing`, which fixes the rules that the code follows and what
    is known of the environments. -/

namespace Eleu

namespace Setting

/-- The chunk is right for a function whose body is judged at `Γ`. -/
def Fitting (S : Setting) (chunk : Chunk) (Γ : Context) : Prop :=
  ∃ L, L 0 = some { scopes := Γ, call := true } ∧ chunk.Balanced S.rules true L

/-- With the distances `d`, a function gets a chunk that is right for it and for every other function
    of the same id. -/
def Compiles (S : Setting) (d : Distances) : Prop :=
  ∀ {decl other : FunctionDecl} {Γ Δ : Context} {chunk : Chunk}, S.rules.known decl Γ →
    functionChunk d decl = .ok chunk → S.rules.known other Δ → other.id = decl.id →
    S.Fitting chunk (S.start other Δ)

end Setting

/-- An active frame, its environment, the shapes of its chunk and its own shape. -/
structure Row where
  frame : Frame
  env : EnvRef
  shapes : Nat → Option Shape
  shape : Shape

namespace Row

/-- The row stands in its chunk as its shape says, with the value stack at `height`. -/
structure Stands (S : Footing) (s : Store) (call : Bool) (height : Nat) (r : Row) : Prop where
  balanced : r.frame.chunk.Balanced S.rules call r.shapes
  shape : r.shapes r.frame.ip = some r.shape
  call : r.shape.call = call
  height : r.frame.base + r.shape.height = height
  chain : S.chain s r.env r.shape.scopes

/-- A handler is the one that the instruction at `b` has installed for the row, which is one of
    `depth` rows. -/
structure Handles (r : Row) (depth b : Nat) (h : Handler) : Prop where
  code : r.frame.chunk.instr? b = some ⟨.failureBegin h.message h.catchAt, h.span⟩
  frames : h.frames = depth
  envs : h.envs + 1 = depth
  env : h.env = r.env
  stack : h.stack = r.frame.base + r.shape.floor

/-- The row further on, at another instruction of its chunk. -/
def goTo (r : Row) (ip : Nat) (l : Shape) : Row := { r with frame := { r.frame with ip }, shape := l }

/-- The handlers `hs` are that of the row, if its shape asks for one, on top of `rest`. -/
def Installs (r : Row) (depth : Nat) (hs rest : List Handler) : Prop :=
  match r.shape.guard with
  | none => hs = rest
  | some b => ∃ h, hs = h :: rest ∧ r.Handles depth b h

theorem installs_none {r : Row} {depth : Nat} {hs : List Handler} (h : r.shape.guard = none) :
    r.Installs depth hs hs := by
  rw [Row.Installs, h]

end Row

/-- The rows below a frame with the given base, each of which awaits the value of a call, and their
    handlers. -/
def Below (S : Footing) (s : Store) : (base : Nat) → List Row → List Handler → Prop
  | _, [], hs => hs = []
  | base, r :: rs, hs =>
    r.Stands S s (!rs.isEmpty) (base + 1) ∧ r.shape.flag = none ∧ r.shape.floor < r.shape.height
      ∧ ∃ rest, r.Installs (rs.length + 1) hs rest ∧ Below S s r.frame.base rs rest

/-- The environment and the scopes of the row. -/
def Row.place (r : Row) : EnvRef × Context := (r.env, r.shape.scopes)

namespace Machine

/-- The rows have their environments to themselves. -/
abbrev Owns (S : Footing) (m : Machine) (rs : List Row) : Prop :=
  S.owned m.world.store m.globals (rs.map Row.place)

/-- The machine has the row `r` on top of the rows `rs`; the next instruction of `r` is at `ip`. -/
structure Runs (S : Footing) (m : Machine) (ip : Nat) (r : Row) (rs : List Row) : Prop where
  frames : m.frames = { r.frame with ip } :: rs.map Row.frame
  env : m.env = r.env
  envs : m.envs = rs.map Row.env
  top : r.Stands S m.world.store (!rs.isEmpty) m.stack.length
  flag : ∀ b, r.shape.flag = some b → m.stack.head? = some (.bool b)
  owned : m.Owns S (r :: rs)
  below : ∃ rest, r.Installs (rs.length + 1) m.handlers rest
    ∧ Below S m.world.store r.frame.base rs rest

/-- What a machine holds besides its rows is as the footing wants it. -/
structure Holds (S : Footing) (m : Machine) : Prop where
  store : m.world.store.Obeys S.law
  stack : ∀ v ∈ m.stack, v.Obeys S.law m.world.store
  chunks : ∀ {decl : FunctionDecl} {Γ : Context} {chunk : Chunk}, S.rules.known decl Γ →
    m.chunks.get? decl.id = some chunk → S.Fitting chunk (S.start decl Γ)
  compiles : S.Compiles m.distances
  root : S.root m.world.store m.globals

end Machine

variable {S : Footing} {s t : Store}

theorem Row.Stands.grows {call : Bool} {height : Nat} {r : Row} (hg : S.grows s t)
    (h : r.Stands S s call height) : r.Stands S t call height :=
  { h with chain := S.chain_grows hg h.chain }

theorem Below.grows (hg : S.grows s t) {base : Nat} {rs : List Row} {hs : List Handler}
    (h : Below S s base rs hs) : Below S t base rs hs := by
  induction rs generalizing base hs with
  | nil => exact h
  | cons r rs ih =>
    obtain ⟨hr, hf, hl, rest, hi, hb⟩ := h
    exact ⟨hr.grows hg, hf, hl, rest, hi, ih hb⟩

end Eleu
