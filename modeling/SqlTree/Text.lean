/-! Characters and texts: white space, hexadecimal digits, and quoted text. -/

namespace SqlTree.Text

/-! ### White space -/

/-- The characters with the Unicode property `White_Space`. -/
def isBlank (c : Char) : Bool :=
  let n := c.toNat
  (0x09 ≤ n && n ≤ 0x0d) || n == 0x20 || n == 0x85 || n == 0xa0 || n == 0x1680 ||
    (0x2000 ≤ n && n ≤ 0x200a) || n == 0x2028 || n == 0x2029 || n == 0x202f || n == 0x205f ||
    n == 0x3000

/-- The text from its first character that is not white space. -/
def trimStart (cs : List Char) : List Char := cs.dropWhile isBlank

/-! ### Hexadecimal digits -/

/-- The value of a hexadecimal digit of either case. -/
def hexValue? (c : Char) : Option Nat :=
  if '0' ≤ c ∧ c ≤ '9' then some (c.toNat - '0'.toNat)
  else if 'a' ≤ c ∧ c ≤ 'f' then some (c.toNat - 'a'.toNat + 10)
  else if 'A' ≤ c ∧ c ≤ 'F' then some (c.toNat - 'A'.toNat + 10)
  else none

/-- The number written by a list of hexadecimal digits. -/
def hexNumber? : List Char → Nat → Option Nat
  | [], n => some n
  | c :: cs, n => (hexValue? c).bind fun d => hexNumber? cs (16 * n + d)

/-- The lower-case digit of a value below sixteen. -/
def lowerHex (n : Nat) : Char := Nat.digitChar (n % 16)

/-- The upper-case digit of a value below sixteen. -/
def upperHex (n : Nat) : Char := (lowerHex n).toUpper

/-- The two upper-case digits of a byte. -/
def upperByte (b : UInt8) : List Char := [upperHex (b.toNat / 16), upperHex b.toNat]

/-! ### Quotes

Inside the quotes the closing character stands doubled, so the first closing character that is not
doubled ends the text. -/

/-- The text with every occurrence of `c` doubled. -/
def doubled (c : Char) : List Char → List Char
  | [] => []
  | x :: xs => if x = c then c :: c :: doubled c xs else x :: doubled c xs

/-- A text between an opening and a closing character. -/
def quoted (opening closing : Char) (s : String) : String :=
  String.ofList (opening :: (doubled closing s.toList ++ [closing]))

end SqlTree.Text
