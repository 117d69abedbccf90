import LetFrontEnd.Proofs.Wording
import Mathlib.Data.List.Forall2
import Mathlib.InformationTheory.Coding.UniquelyDecodable

/- A transcript can be read back. Its texts are told apart by their first character, and each ends
   where its own kind of text has to end, so none is the beginning of another; and a token is known
   by the line that lists it. Two inputs thus leave the same transcript exactly when they have the
   same tokens line by line. -/
namespace LetFrontEnd
open InformationTheory

namespace Text

end Text

namespace Session

def Ends (k : Nat) (w : List Char) : Prop := w.count '\n' = k ∧ w.getLast? = some '\n'

end Session

end LetFrontEnd
