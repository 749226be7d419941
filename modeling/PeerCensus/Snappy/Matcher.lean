import PeerCensus.Snappy.Block

/-!
# Finding the elements of a block

The data is gone through once. A table remembers for every hash of four bytes where they were seen
last; when the four bytes at the current place equal those at the remembered one, the match is made
as long as it can be and becomes a copy, and what lies between two copies becomes a literal. While
nothing matches, the places looked at move further and further apart.

Results:
* `find_le`: a match is found no earlier than where the search begins.
-/

namespace PeerCensus.Snappy

namespace Matcher

/-- The data of at most one block and the width of the hashes. -/
structure Input where
  data : Array UInt8
  /-- How far a product is shifted right to become a hash. -/
  shift : Nat

/-- The bytes at the end in which no match begins. -/
def margin : Nat := 15

/-- The four bytes at `i` as one number. -/
def word (input : Input) (i : Nat) : Nat :=
  (input.data.getD i 0).toNat + (input.data.getD (i + 1) 0).toNat * 0x100 +
    (input.data.getD (i + 2) 0).toNat * 0x10000 + (input.data.getD (i + 3) 0).toNat * 0x1000000

/-- The hash of the four bytes at `i`. -/
def hash (input : Input) (i : Nat) : Nat :=
  (word input i * 0x1e35a7bd % 0x100000000) >>> input.shift

/-- The first place where a copy may no longer begin. -/
def limit (input : Input) : Nat :=
  input.data.size - margin

/-- The bytes from `start` up to `stop`. -/
def slice (input : Input) (start stop : Nat) : Bytes :=
  (input.data.extract start stop).toList

/-- Where the four bytes with each hash were seen last. -/
abbrev Table := Array Nat

/-- The next place from `s` on whose four bytes were seen before: the place, where they were seen,
and the table. After every 32 places without a match the steps grow by one; `skipped` is how far
they have grown. -/
def find (input : Input) (table : Table) (s skipped : Nat) : Option (Nat × Nat × Table) :=
  let step := 1 + skipped / 32
  if limit input < s + step then none
  else
    let seen := table.getD (hash input s) 0
    let table := table.setIfInBounds (hash input s) s
    if word input s = word input seen then some (s, seen, table)
    else find input table (s + step) (skipped + step)
termination_by limit input + 1 - s

theorem find_le {input : Input} {table table' : Table} {s skipped s' seen : Nat}
    (h : find input table s skipped = some (s', seen, table')) : s ≤ s' := by
  fun_induction find input table s skipped with
  | case1 => simp at h
  | case2 =>
    simp only [Option.some.injEq, Prod.mk.injEq] at h
    omega
  | case3 table s skipped step _ _ _ _ ih =>
    have := ih h
    omega

/-- How many bytes from `i` on equal those from `j` on, up to the end of the data. -/
def commonLength (input : Input) (i j : Nat) : Nat :=
  if h : j < input.data.size then
    if input.data.getD i 0 = input.data[j] then 1 + commonLength input (i + 1) (j + 1) else 0
  else 0
termination_by input.data.size - j

/-- A copy of any length as copies of at most 64 bytes, none shorter than four. -/
def splitCopy (offset length : Nat) : List Element :=
  if 68 ≤ length then .copy offset 64 :: splitCopy offset (length - 64)
  else if 64 < length then [.copy offset 60, .copy offset (length - 60)]
  else [.copy offset length]
termination_by length

/-- The rest of the data from `start` on as it is. -/
def remainder (input : Input) (start : Nat) : List Element :=
  if start < input.data.size then [.literal (slice input start input.data.size)] else []

/-- The elements for the data from `emitted` on. With `seen` a match begins at `s`, which is
`emitted`; without it the search for one begins at `s`. -/
def elementsFrom (input : Input) (table : Table) (emitted s : Nat) (seen : Option Nat) :
    List Element :=
  match seen with
  | none =>
    match _found : find input table s 0 with
    | none => remainder input emitted
    | some (start, place, table) =>
      .literal (slice input emitted start) :: elementsFrom input table start start (some place)
  | some place =>
    let stop := s + 4 + commonLength input (place + 4) (s + 4)
    splitCopy (s - place) (stop - s) ++
      if limit input ≤ stop then remainder input stop
      else
        let table := table.setIfInBounds (hash input (stop - 1)) (stop - 1)
        let next := table.getD (hash input stop) 0
        let table := table.setIfInBounds (hash input stop) stop
        if word input stop = word input next then elementsFrom input table stop stop (some next)
        else elementsFrom input table stop (stop + 1) none
termination_by (input.data.size - s, if seen.isNone then 1 else 0)
decreasing_by
  · have := find_le _found
    have : input.data.size - start ≤ input.data.size - s := by omega
    rcases Nat.lt_or_eq_of_le this with h | h
    · exact Prod.Lex.left _ _ h
    · rw [h]; exact Prod.Lex.right _ (by simp)
  · have : limit input ≤ input.data.size := by simp [limit]
    exact Prod.Lex.left _ _ (by omega)
  · have : limit input ≤ input.data.size := by simp [limit]
    exact Prod.Lex.left _ _ (by omega)

/-- The number of bits of the hashes for `size` bytes of data: from eight up to fourteen, as few as
give a hash for every byte. -/
def hashBits (size : Nat) : Nat :=
  (List.range 6).foldl (fun bits _ => if Nat.pow 2 bits < size then bits + 1 else bits) 8

/-- The elements for `data`. Fewer than 17 bytes are always a literal. -/
def elements (data : Bytes) : List Element :=
  let bits := hashBits data.length
  let input : Input := ⟨data.toArray, 32 - bits⟩
  if data.length < margin + 2 then remainder input 0
  else elementsFrom input (Array.replicate (Nat.pow 2 bits) 0) 0 1 none

end Matcher

/-- A block for `data`. -/
def Block.encode (data : Bytes) : Bytes :=
  Varint.encode data.length ++ (Matcher.elements data).flatMap Element.encode

end PeerCensus.Snappy
