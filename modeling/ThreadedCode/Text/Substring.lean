/-!
# Occurrences in a text

Looking for a piece of text and replacing its occurrences from left to right.
-/

namespace ThreadedCode.Text

/-- Whether `piece` occurs somewhere in a text. -/
def occursIn (piece : List Char) : List Char → Bool
  | [] => piece.isEmpty
  | c :: rest => piece.isPrefixOf (c :: rest) || occursIn piece rest

def contains (text piece : String) : Bool :=
  occursIn piece.toList text.toList

/-- `replace` after the characters `done`, newest first, with `skip` characters of an occurrence
still to pass over. -/
def replaceFrom (piece substitute : List Char) (skip : Nat) (done : List Char) :
    List Char → List Char
  | [] => done.reverse
  | c :: rest =>
    match skip with
    | skip + 1 => replaceFrom piece substitute skip done rest
    | 0 =>
      if piece.isPrefixOf (c :: rest) then
        replaceFrom piece substitute (piece.length - 1) (substitute.reverse ++ done) rest
      else replaceFrom piece substitute 0 (c :: done) rest

/-- The text with each occurrence of a non-empty `piece`, taken from left to right without overlap,
replaced by `substitute`. -/
def replace (text piece substitute : String) : String :=
  String.ofList (replaceFrom piece.toList substitute.toList 0 [] text.toList)

end ThreadedCode.Text
