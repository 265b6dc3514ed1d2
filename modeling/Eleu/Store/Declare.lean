import Eleu.Store.Display

/-! # Class statements

    A class statement adds methods to a class: to a new one, or to the class that the name already
    denotes in the same scope, which is thereby reopened. Everything that can be wrong with it is
    found before the store is changed. -/

namespace Eleu.Store

/-- Adds the methods of a class statement, which close over the environment `e`. -/
def addMethods (s : Store) (r : ClassRef) (e : EnvRef) : List FunctionDecl → Store
  | [] => s
  | d :: ds =>
    (s.setMethod r d.name { decl := d, env := e, isInit := d.name == "init" }).addMethods r e ds

/-- The class that a class statement adds methods to: a new one, or the one that the name denotes in
    the same scope if it has the same superclass. -/
def openClass (e : EnvRef) (name : String) (parent : Option ClassRef) : StoreM ClassRef := do
  match (← MonadState.get).local? e name with
  | none => modifyGet (·.newClass name parent)
  | some (.callable (.classRef r)) =>
    if ((← MonadState.get).classAt r).parent = parent then return r
    else throw (.superclassChanged name)
  | some _ => throw (.alreadyDeclared name)

/-- The class that the value of a superclass clause denotes. -/
def superclassOf (s : Store) : Option Value → Except Cause (Option ClassRef)
  | none => .ok none
  | some (.callable (.classRef r)) => .ok (some r)
  | some v => .error (.superclassNotClass (s.repr v))

/-- The environment that the methods of a class statement in the environment `e` close over. With a
    superclass it is a scope of their own in which `super` is bound. -/
def methodScope (s : Store) (e : EnvRef) : Option ClassRef → EnvRef × Store
  | none => (e, s)
  | some p =>
    let (inner, s) := s.newEnv (some e)
    (inner, s.define inner "super" (.callable (.classRef p)))

/-- Executes a class statement in the environment `e`. -/
def declareClass (e : EnvRef) (name : String) (superclass : Option Value)
    (methods : List FunctionDecl) : StoreM Unit := do
  let parent ← MonadExcept.ofExcept ((← MonadState.get).superclassOf superclass)
  let r ← openClass e name parent
  let inner ← modifyGet (·.methodScope e parent)
  modify (·.addMethods r inner methods)
  modify (·.define e name (.callable (.classRef r)))

end Eleu.Store
