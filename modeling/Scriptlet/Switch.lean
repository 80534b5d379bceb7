/-!
# Switches

A setting is turned on and off by words; their case does not matter. The words are ASCII, and no
other character has an ASCII lower case that occurs in them.
-/

namespace Scriptlet.Switch

/-- The words that turn a setting on. -/
def onWords : List String := ["on", "1", "true", "yes"]

/-- The words that turn a setting off. -/
def offWords : List String := ["off", "0", "false", "no"]

/-- The word turns a setting on. -/
def isOn (word : String) : Bool :=
  onWords.contains word.toLower

/-- The word turns a setting off. -/
def isOff (word : String) : Bool :=
  offWords.contains word.toLower

/-- What a word says about a setting, if it says anything. -/
def read? (word : String) : Option Bool :=
  if isOn word then some true else if isOff word then some false else none

end Scriptlet.Switch
