import Eleu.Store.Class

/-! # Texts of values

    How `print` shows a value, and how diagnostics do, with strings in quotes. -/

namespace Eleu.Store

/-- The text of a truth value. -/
def boolText (b : Bool) : String := if b then "true" else "false"

/-- The text of a callable. -/
def callableText (s : Store) : Callable → String
  | .native f => "native fun " ++ f.name ++ "(" ++ String.intercalate ", " f.params ++ ")"
  | .closure c => "fun " ++ c.decl.name ++ "(" ++ String.intercalate ", " c.decl.params ++ ")"
  | .classRef r => "class " ++ (s.classAt r).name

/-- The text of a value, with lists shown down to `depth` levels. -/
def write (s : Store) : (depth : Nat) → (quoted : Bool) → Value → String
  | _, _, .nil => "nil"
  | _, _, .bool b => boolText b
  | _, _, .number n => n.text
  | _, quoted, .string t => if quoted then "\"" ++ t ++ "\"" else t
  | _, _, .callable c => s.callableText c
  | _, _, .object r => (s.classAt (s.instanceAt r).classRef).name ++ " instance"
  | 0, _, .list _ => "[]"
  | depth + 1, _, .list r =>
    "[" ++ String.intercalate ", " ((s.list r).toList.map (s.write depth true)) ++ "]"

/-- The text that `print` shows. Lists that do not contain themselves are nested no deeper than there
    are lists. -/
def text (s : Store) (v : Value) : String := s.write s.lists.size false v

/-- The text in diagnostics, with strings in quotes. -/
def repr (s : Store) (v : Value) : String := s.write s.lists.size true v

/-- The type of a value, as `typeof` names it. -/
def typeName (s : Store) : Value → String
  | .nil => "undefined"
  | .bool _ => "boolean"
  | .number _ => "number"
  | .string _ => "string"
  | .list _ => "list"
  | .callable (.classRef r) => "metaclass " ++ (s.classAt r).name
  | .callable _ => "function"
  | .object r => "class " ++ (s.classAt (s.instanceAt r).classRef).name

end Eleu.Store
