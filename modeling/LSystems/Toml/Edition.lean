/-!
# Editions of TOML

Two editions of the format are read. They agree on most texts, and differ in what is
stated here.
-/

namespace LSystems.Toml

structure Edition where
  /-- Lists and tables within lines may be nested this deep, and keys may have this many
  names. -/
  depthLimit : Nat
  /-- A table within a line may as well span several, hold comments and end in a comma. -/
  spansLines : Bool
  /-- A string may give a character by `\e` or by two hexadecimal digits. -/
  hasShortEscapes : Bool
  /-- A string of several lines keeps the ends of its lines as they are, and does not
  turn each of them into a line feed. -/
  keepsLineEnds : Bool
  /-- A dotted key may add to a table that a header implied. -/
  extendsImplied : Bool
  /-- A number too far below zero for a double is negative infinity, and not refused. -/
  hasNegativeOverflow : Bool
deriving DecidableEq, Repr

namespace Edition

/-- The edition 1.0. -/
def first : Edition where
  depthLimit := 79
  spansLines := false
  hasShortEscapes := false
  keepsLineEnds := false
  extendsImplied := false
  hasNegativeOverflow := true

/-- The edition 1.1. -/
def second : Edition where
  depthLimit := 80
  spansLines := true
  hasShortEscapes := true
  keepsLineEnds := true
  extendsImplied := true
  hasNegativeOverflow := false

end Edition

end LSystems.Toml
