import Scriptlet.Node.Name

/-!
# Values

The values a program computes. Arrays, maps and functions have an identity besides their contents:
two of them are equal only when they come from the same evaluation of the same literal.
-/

namespace Scriptlet

/-- The number of a scope in the store. -/
abbrev ScopeId := Nat

/-- The identity of an array, a map or a function. -/
abbrev ObjectId := Nat

/-- A function of the language: its parameters, its body and the scope it was written in. -/
structure Closure where
  parameters : List Node
  body : Node
  scope : ScopeId

/-- The names of the parameters, as texts. -/
def Closure.names (closure : Closure) : List String :=
  closure.parameters.map Node.renderName

/-- The first flaw that keeps a function from being shown: a parameter without a name, then a
parameter whose name is no text, then a flaw of the body. A body that is missing as a whole is shown
as a gap. -/
def Closure.flaw? (closure : Closure) : Option Flaw :=
  (closure.parameters.findSome? Node.noNameFlaw?).or <|
    (Node.noTextFlaw? 0 closure.parameters).or closure.body.textFlaw?

/-- A function of the host. -/
inductive Builtin where
  /-- The number of characters of a string or of elements of an array. -/
  | len
  /-- Hand the arguments to the host. -/
  | print
deriving DecidableEq, Repr

/-- The name of a host function. -/
def Builtin.name : Builtin → String
  | len => "len"
  | print => "print"

/-- The host function that every program can name. -/
def Builtin.ofName? : String → Option Builtin
  | "len" => some len
  | _ => none

/-- A value. -/
inductive Value where
  | null
  | boolean (value : Bool)
  | integer (value : Int)
  | string (value : String)
  | array (id : ObjectId) (elements : List Value)
  /-- Each key occurs once; keys stand in the order in which they were first given. -/
  | map (id : ObjectId) (entries : List (String × Value))
  | function (id : ObjectId) (closure : Closure)
  | builtin (builtin : Builtin)
deriving Inhabited

/-- The type of a value. -/
inductive ValueType where
  | integer | boolean | string | array | map | function | builtin | null
deriving DecidableEq, Repr

/-- The name of a type. -/
def ValueType.name : ValueType → String
  | integer => "Integer"
  | boolean => "Boolean"
  | string => "String"
  | array => "Array"
  | map => "Map"
  | function => "Function"
  | builtin => "BuiltinFunction"
  | null => "Null"

namespace Value

/-- The type of a value. -/
def type : Value → ValueType
  | null => .null
  | boolean _ => .boolean
  | integer _ => .integer
  | string _ => .string
  | array _ _ => .array
  | map _ _ => .map
  | function _ _ => .function
  | builtin _ => .builtin

/-- The value counts as true in a test: `true` and every integer but zero. -/
def truthy : Value → Bool
  | boolean value => value
  | integer value => value != 0
  | _ => false

/-- Equality of the language: data by value, arrays, maps and functions by identity. -/
def equals : Value → Value → Bool
  | null, null => true
  | boolean left, boolean right => left == right
  | integer left, integer right => left == right
  | string left, string right => left == right
  | array left _, array right _ => left == right
  | map left _, map right _ => left == right
  | function left _, function right _ => left == right
  | builtin left, builtin right => left == right
  | _, _ => false

mutual

/-- The text of a value. -/
def inspect : Value → String
  | null => "null"
  | boolean value => if value then "true" else "false"
  | integer value => toString value
  | string value => value
  | array _ elements => "[" ++ ", ".intercalate (inspectList elements) ++ "]"
  | map _ entries => "\x7b" ++ ", ".intercalate (inspectEntries entries) ++ "\x7d"
  | function _ closure =>
      "fn(" ++ ", ".intercalate closure.names ++ ") \x7b\n" ++ closure.body.render ++ "\n\x7d"
  | builtin host => "[Builtin: " ++ host.name ++ "]"

/-- The texts of the elements of an array. -/
def inspectList : List Value → List String
  | [] => []
  | value :: values => value.inspect :: inspectList values

/-- The texts of the entries of a map. -/
def inspectEntries : List (String × Value) → List String
  | [] => []
  | (key, value) :: entries => (key ++ ":" ++ value.inspect) :: inspectEntries entries

end

mutual

/-- The first flaw, in reading order, that keeps a value from being shown. -/
def flaw? : Value → Option Flaw
  | array _ elements => flawList? elements
  | map _ entries => flawEntries? entries
  | function _ closure => closure.flaw?
  | _ => none

/-- The first flaw of a list of values. -/
def flawList? : List Value → Option Flaw
  | [] => none
  | value :: values => value.flaw?.or (flawList? values)

/-- The first flaw of the values under keys. -/
def flawEntries? : List (String × Value) → Option Flaw
  | [] => none
  | (_, value) :: entries => value.flaw?.or (flawEntries? entries)

end

/-- The text of a value, or its first flaw. -/
def inspect? (value : Value) : Except Flaw String :=
  match value.flaw? with
  | some flaw => .error flaw
  | none => .ok value.inspect

/-- Put a value under a key: a new key goes last, a known one keeps its place. -/
def putEntry (key : String) (value : Value) :
    List (String × Value) → List (String × Value)
  | [] => [(key, value)]
  | (name, old) :: entries =>
      if name = key then (name, value) :: entries else (name, old) :: putEntry key value entries

/-- The value under a key, null when there is none. -/
def entry (key : String) (entries : List (String × Value)) : Value :=
  (entries.lookup key).getD null

end Value

end Scriptlet
