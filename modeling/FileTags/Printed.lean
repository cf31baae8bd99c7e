import FileTags.Failure
/-! # Printing

What is printed piece by piece may stop at a piece that cannot be printed.  Those before it have been
printed by then, and stay.
-/
namespace FileTags

/-- A piece that is printed at once, if it can be. -/
abbrev Chunk := Except Failure String

/-- What comes of printing: the text up to what cannot be printed, and why that cannot be, if there is
such a thing. -/
structure Printed where
  text : String
  fault : Option Failure := none

/-- Prints one piece after another, up to the first that cannot be. -/
def Printed.ofChunks : List Chunk → Printed
  | [] => ⟨"", none⟩
  | .ok s :: rest => { ofChunks rest with text := s ++ (ofChunks rest).text }
  | .error f :: _ => ⟨"", some f⟩

end FileTags
