/-!
# White space

The characters Unicode calls white space, and texts without the white space at their ends.

Results:
* `trim_of_blank`: a text of white space only is trimmed to nothing.
-/

namespace PeerCensus.Text

/-- Whether `c` has the Unicode property `White_Space`. -/
def isBlank (c : Char) : Bool :=
  let n := c.toNat
  (0x9 ≤ n && n ≤ 0xd) || n == 0x20 || n == 0x85 || n == 0xa0 || n == 0x1680 ||
    (0x2000 ≤ n && n ≤ 0x200a) || n == 0x2028 || n == 0x2029 || n == 0x202f || n == 0x205f ||
    n == 0x3000

/-- `chars` without the white space before and after it. -/
def trimChars (chars : List Char) : List Char :=
  ((chars.dropWhile isBlank).reverse.dropWhile isBlank).reverse

/-- `text` without the white space before and after it. -/
def trim (text : String) : String :=
  String.ofList (trimChars text.toList)

theorem trim_of_blank {chars : List Char} (h : ∀ c ∈ chars, isBlank c = true) :
    trimChars chars = [] := by
  have nothing : chars.dropWhile isBlank = [] := by
    induction chars with
    | nil => rfl
    | cons c rest ih => simp_all
  simp [trimChars, nothing]

end PeerCensus.Text
