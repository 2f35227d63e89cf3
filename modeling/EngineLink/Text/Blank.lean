/-!
# White space

The characters with the Unicode property White_Space, and the removal of them around a text.
-/

namespace EngineLink.Text

/-- The code points of Unicode white space. -/
def isBlankCode (n : Nat) : Bool :=
  (0x9 ≤ n && n ≤ 0xD) || n == 0x20 || n == 0x85 || n == 0xA0 || n == 0x1680 ||
  (0x2000 ≤ n && n ≤ 0x200A) || n == 0x2028 || n == 0x2029 || n == 0x202F || n == 0x205F ||
  n == 0x3000

/-- White space in the sense of Unicode. -/
def isBlank (c : Char) : Bool :=
  isBlankCode c.toNat

/-- Drops white space at the front. -/
def trimLeft (cs : List Char) : List Char :=
  cs.dropWhile isBlank

/-- Drops white space at the end. -/
def trimRight (cs : List Char) : List Char :=
  (cs.reverse.dropWhile isBlank).reverse

/-- Drops white space on both sides. -/
def trimChars (cs : List Char) : List Char :=
  trimRight (trimLeft cs)

/-- A text without the white space around it. -/
def trim (s : String) : String :=
  String.ofList (trimChars s.toList)

/-- A field in front of others; an empty one is no field. -/
def consField (field : List Char) (others : List (List Char)) : List (List Char) :=
  if field = [] then others else field :: others

/-- The characters before the first separator, possibly none, and the fields after it. -/
def firstField (separator : Char → Bool) : List Char → List Char × List (List Char)
  | [] => ([], [])
  | c :: rest =>
    let next := firstField separator rest
    if separator c then ([], consField next.1 next.2) else (c :: next.1, next.2)

/-- The maximal non-empty parts of a text that hold no separator, in order. -/
def fields (separator : Char → Bool) (cs : List Char) : List (List Char) :=
  let first := firstField separator cs
  consField first.1 first.2

end EngineLink.Text
