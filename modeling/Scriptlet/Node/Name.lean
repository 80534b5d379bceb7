import Scriptlet.Node.Sameness

/-!
# Names

What a program declares and asks for by name. A name is the text of an identifier, as a rule. A
declaration that stands in the place of a name gives the node that it declares, as a dictionary key:
it equals no text, and another node only if the two are the same.
-/

namespace Scriptlet

/-- A name. -/
inductive Name where
  /-- The name that an identifier uses. -/
  | text (name : String)
  /-- The name of a declaration. -/
  | node (key : Node.Key)
deriving DecidableEq

namespace Name

instance : Coe String Name := ⟨text⟩

/-- The flaw that keeps a name from being shown as part of a text. -/
def flaw? : Name → Option Flaw
  | text _ => none
  | node key => key.flaw?

/-- The text that shows a name. -/
def shown : Name → String
  | text name => name
  | node key => key.render

end Name

/-- The name of a node, which only identifiers and declarations have. -/
def Node.naming : Node → Except Flaw Name
  | identifier _ name => .ok (.text name)
  | declaration _ name _ => .ok (.node (Quotient.mk _ name))
  | node => .error (.noName node.form)

end Scriptlet
