import FileTags.Text.Pieces
/-! # Senders of messages

The name of a sender is made of parts between dots.  A sender belongs to the nearest sender in use
among those whose parts its own begin with, and to whatever that one belongs to; the library's
sender is always in use.  The search for the nearest goes up by one part, but by two from a name
that ends in an empty part: what `a..b` belongs to is `a.`, or nothing.
-/
namespace FileTags.Sender

/-- The name of the library's sender, which is a single part. -/
def ownName : String := "tagit"

/-- The parts of a name, from the last to the first. -/
def parts (name : String) : List (List Char) := (Text.pieces '.' name.toList).reverse

/-- Whether the search for the nearest sender in use, from a name upwards, leads to the library's. -/
def leadsToOwn (used : List String) : List (List Char) → Bool
  | [] => false
  | [part] => part = ownName.toList
  | part :: next :: above =>
    if !part.isEmpty || used.any (fun name => parts name = part :: next :: above) then
      leadsToOwn used (next :: above)
    else leadsToOwn used above

/-- Whether a sender is the library's or belongs to it, with the names of the senders in use. -/
def isOwn (used : List String) (name : String) : Bool :=
  name = ownName || leadsToOwn used (parts name).tail

end FileTags.Sender
