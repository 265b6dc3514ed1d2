import Eleu.Library.Natives
import Eleu.Proofs.Outcome

/-! # Natives do not see the dump

    Only the machine writes a dump. No native of the library reads or writes it, so that a native does
    the same in two worlds that differ in nothing else (`NativeM.call_withDump`). Of the natives of
    the host, `Options.BlindHost` asks the same. -/

namespace Eleu

/-- The world with another dump. -/
def World.withDump (w : World) (dump : Array String) : World :=
  { w with journal := { w.journal with dump := dump } }

namespace NativeM

/-- The same outcome in a world with another dump. -/
def withDump (dump : Array String) :
    EStateM.Result Fault World Value → EStateM.Result Fault World Value
  | .ok v w => .ok v (w.withDump dump)
  | .error f w => .error f (w.withDump dump)

end NativeM

/-- The natives of the host neither read nor write the dump. -/
def Options.BlindHost (o : Options) : Prop :=
  ∀ name args w dump, o.host name args (w.withDump dump) = NativeM.withDump dump (o.host name args w)

namespace NativeM

variable {o : Options} (w : World) (dump : Array String)

theorem look_withDump (f : Store → Except Cause Value) :
    look f (w.withDump dump) = withDump dump (look f w) := by
  unfold look
  simp only [Outcome.bind_apply, Outcome.get_apply]
  rw [show (w.withDump dump).store = w.store from rfl]
  cases f w.store <;> rfl

/-- After the arguments were counted, the rest may be compared. -/
theorem count_withDump {name : String} {args : List Value} {n : Nat} {rest : Unit → NativeM Value}
    (h : rest () (w.withDump dump) = withDump dump (rest () w)) :
    (count name args n >>= rest) (w.withDump dump) = withDump dump ((count name args n >>= rest) w) := by
  unfold count
  cases checkCount name args n n with
  | ok u => exact h
  | error c => rfl

theorem push_withDump (args : List Value) :
    push args (w.withDump dump) = withDump dump (push args w) := by
  refine count_withDump w dump ?_
  simp only [Outcome.bind_apply, Outcome.get_apply]
  rw [show (w.withDump dump).store = w.store from rfl]
  cases w.store.listArgument "push" args 0 <;> rfl

/-- A native does the same whatever the dump. -/
theorem call_withDump (ho : o.BlindHost) (f : Native) (args : List Value) :
    call o f args (w.withDump dump) = withDump dump (call o f args w) := by
  obtain ⟨name, params, op, serial⟩ := f
  cases op with
  | print => exact count_withDump w dump rfl
  | clock => exact count_withDump w dump rfl
  | random => exact count_withDump w dump rfl
  | typeOf => exact count_withDump w dump (look_withDump w dump _)
  | toString => exact count_withDump w dump (look_withDump w dump _)
  | push => exact push_withDump w dump args
  | makeList => rfl
  | host => exact ho name args w dump
  | math | pow | toFixed | parseInt | parseFloat | parseNum | length | charAt | substring | indexOf
  | lastIndexOf | toLowerCase | toUpperCase | elementAt =>
    simp only [call, look_withDump]

end NativeM

end Eleu
