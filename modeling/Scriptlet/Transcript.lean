/-!
# Transcripts

What a program has written: one text for its output and one for its errors.
-/

namespace Scriptlet

/-- The output and the errors written so far. -/
structure Transcript where
  out : String
  err : String
deriving DecidableEq, Repr, Inhabited

namespace Transcript

/-- Nothing written. -/
def empty : Transcript := ⟨"", ""⟩

/-- Text on the output. -/
def output (text : String) : Transcript := ⟨text, ""⟩

/-- Text on the errors. -/
def error (text : String) : Transcript := ⟨"", text⟩

/-- First one transcript, then the other. -/
def append (first second : Transcript) : Transcript :=
  ⟨first.out ++ second.out, first.err ++ second.err⟩

instance : Append Transcript := ⟨append⟩

/-- Transcripts one after the other. -/
def join (transcripts : List Transcript) : Transcript :=
  transcripts.foldl append empty

end Transcript

end Scriptlet
