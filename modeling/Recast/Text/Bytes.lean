import Recast.Files.Encoding

/-!
Places in a text counted in bytes of its encoding. `charsWithin` turns such a place into a number of
characters; a character that is cut in two does not count.
-/

namespace Recast.Text

def charsWithin (place : Nat) (s : Text) : Nat :=
  (Encoding.readable ((Encoding.encode s).take place)).length

end Recast.Text
