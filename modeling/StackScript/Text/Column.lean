/-!
# Columns

Padding of short texts to a column width, joining and the byte order of names.
-/

namespace StackScript.Text

/-- `count` copies of a character. -/
def repeated (c : Char) (count : Nat) : String := String.ofList (List.replicate count c)

/-- The text at the right end of a column filled up with `fill`. -/
def alignRight (width : Nat) (fill : Char) (s : String) : String :=
  repeated fill (width - s.length) ++ s

/-- The text at the left end of a column filled up with blanks. -/
def alignLeft (width : Nat) (s : String) : String :=
  s ++ repeated ' ' (width - s.length)

/-- The order of texts by code points, which is also the order of their bytes. -/
def notAfter (a b : String) : Bool := !decide (b < a)

/-- Texts in byte order. -/
def sorted (names : List String) : List String := names.mergeSort notAfter

/-- The maximal pieces of a list between occurrences of `sep`, at least one. -/
def splitChars (sep : Char) : List Char → List (List Char)
  | [] => [[]]
  | c :: rest =>
    if c = sep then [] :: splitChars sep rest
    else match splitChars sep rest with
      | [] => [[c]]
      | piece :: pieces => (c :: piece) :: pieces

/-- The pieces of a text between occurrences of `sep`. -/
def split (sep : Char) (s : String) : List String :=
  (splitChars sep s.toList).map String.ofList

end StackScript.Text
