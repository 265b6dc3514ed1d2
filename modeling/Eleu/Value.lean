import Eleu.Number.Basic
import Eleu.Table
import Eleu.Tree

/-! # Values

    Numbers, strings, truth values and nil are held directly. Lists, classes, instances and
    environments live in the store, and a value refers to them by their position there. -/

namespace Eleu

/-- The position of an environment in the store. -/
abbrev EnvRef := Nat

/-- The position of a list in the store. -/
abbrev ListRef := Nat

/-- The position of a class in the store. -/
abbrev ClassRef := Nat

/-- The position of an instance in the store. -/
abbrev InstanceRef := Nat

/-- Functions of one number. -/
inductive MathFunction where
  | sqrt | abs | acos | asin | ceil | cos | floor | log10 | sin
deriving DecidableEq

/-- What a native function does. -/
inductive NativeOp where
  | print | clock | random | typeOf | toString
  | math (f : MathFunction)
  | pow | toFixed | parseInt | parseFloat | parseNum
  | length | charAt | substring | indexOf | lastIndexOf | toLowerCase | toUpperCase
  | push | elementAt
  /-- Makes a list of its arguments. -/
  | makeList
  /-- Is left to the program that runs the script. -/
  | host
deriving DecidableEq

/-- A native function. `serial` tells apart functions that were defined separately, also under one
    name. -/
structure Native where
  name : String
  params : List String
  op : NativeOp
  serial : Nat

/-- A function of the script with the environment in which it was declared. -/
structure Closure where
  decl : FunctionDecl
  env : EnvRef
  isInit : Bool

/-- What can be called. -/
inductive Callable where
  | native (f : Native)
  | closure (c : Closure)
  | classRef (r : ClassRef)

/-- Values of the language. -/
inductive Value where
  | nil
  | bool (b : Bool)
  | number (n : Number)
  | string (s : String)
  | list (r : ListRef)
  | callable (c : Callable)
  | object (r : InstanceRef)

/-- Whether two declarations are the same one. -/
def FunctionDecl.same (d e : FunctionDecl) : Bool := d.unit == e.unit && d.id == e.id

/-- Whether two callables are the same one: the same definition, or the same declaration over the same
    environment. -/
def Callable.same : Callable → Callable → Bool
  | .native f, .native g => f.serial == g.serial
  | .closure c, .closure d => c.decl.same d.decl && c.env == d.env
  | .classRef r, .classRef q => r == q
  | _, _ => false

namespace Value

/-- Equality of the language: by value where the value is held directly, else by identity. -/
def same : Value → Value → Bool
  | .nil, .nil => true
  | .bool a, .bool b => a == b
  | .number m, .number n => m.val == n.val
  | .string s, .string t => s == t
  | .list r, .list q => r == q
  | .callable c, .callable d => c.same d
  | .object r, .object q => r == q
  | _, _ => false

/-- The native that makes a list of its arguments. It has no name in scripts, and a serial number of
    its own. -/
def listConstructor : Value :=
  .callable (.native { name := "list", params := ["...elements"], op := .makeList, serial := 0 })

end Value

end Eleu
