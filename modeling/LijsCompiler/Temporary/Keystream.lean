/-!
# The random words behind random names

The words are the key stream of ChaCha with 12 rounds, a 64-bit block counter that starts at zero,
and a zero nonce.  A seed of 64 bits is spread over the eight words of the key by a
permuted congruential generator.
-/

namespace LijsCompiler

/-- The eight words of a ChaCha key. -/
abbrev StreamKey := Vector UInt32 8

abbrev StreamBlock := Vector UInt32 16

namespace StreamKey

def nextSeed (s : UInt64) : UInt64 := s * 6364136223846793005 + 11634580027462260723

def rotateRight (x : UInt32) (n : UInt32) : UInt32 := x >>> n ||| x <<< ((32 - n) % 32)

def wordOfSeed (s : UInt64) : UInt32 :=
  rotateRight (((s >>> 18 ^^^ s) >>> 27).toUInt32) ((s >>> 59).toUInt32)

def seeds (seed : UInt64) : Nat → List UInt64
  | 0 => []
  | n + 1 => nextSeed seed :: seeds (nextSeed seed) n

theorem length_seeds (seed : UInt64) (n : Nat) : (seeds seed n).length = n := by
  induction n generalizing seed with
  | zero => rfl
  | succ n ih => simp [seeds, ih]

/-- The key of a seed: one word for each of its next eight successors. -/
def ofSeed (seed : UInt64) : StreamKey :=
  ⟨((seeds seed 8).map wordOfSeed).toArray, by simp [length_seeds]⟩

end StreamKey

namespace StreamBlock

def rotateLeft (x : UInt32) (n : UInt32) : UInt32 := x <<< n ||| x >>> (32 - n)

def quarterRound (s : StreamBlock) (a b c d : Fin 16) : StreamBlock :=
  let s := s.set a (s[a] + s[b])
  let s := s.set d (rotateLeft (s[d] ^^^ s[a]) 16)
  let s := s.set c (s[c] + s[d])
  let s := s.set b (rotateLeft (s[b] ^^^ s[c]) 12)
  let s := s.set a (s[a] + s[b])
  let s := s.set d (rotateLeft (s[d] ^^^ s[a]) 8)
  let s := s.set c (s[c] + s[d])
  s.set b (rotateLeft (s[b] ^^^ s[c]) 7)

/-- Four quarter rounds on columns, then four on diagonals. -/
def doubleRound (s : StreamBlock) : StreamBlock :=
  let s := quarterRound s 0 4 8 12
  let s := quarterRound s 1 5 9 13
  let s := quarterRound s 2 6 10 14
  let s := quarterRound s 3 7 11 15
  let s := quarterRound s 0 5 10 15
  let s := quarterRound s 1 6 11 12
  let s := quarterRound s 2 7 8 13
  quarterRound s 3 4 9 14

/-- The words that the rounds start from: constants, key, block number and a zero nonce. -/
def start (key : StreamKey) (number : UInt64) : StreamBlock :=
  (#v[0x61707865, 0x3320646e, 0x79622d32, 0x6b206574] : Vector UInt32 4) ++ key ++
    (#v[number.toUInt32, (number >>> 32).toUInt32, 0, 0] : Vector UInt32 4)

def block (key : StreamKey) (number : UInt64) : StreamBlock :=
  let initial := start key number
  initial.zipWith (· + ·) (Nat.repeat doubleRound 6 initial)

end StreamBlock

/-- A key stream from some place on: the words left of the block at hand, and the number of the next
block. -/
structure Keystream where
  key : StreamKey
  next : UInt64
  pending : List UInt32
deriving Repr

namespace Keystream

def ofKey (key : StreamKey) : Keystream := ⟨key, 0, []⟩

def pop (s : Keystream) : UInt32 × Keystream :=
  match s.pending with
  | word :: words => (word, { s with pending := words })
  | [] =>
    let words := StreamBlock.block s.key s.next
    (words[0], ⟨s.key, s.next + 1, words.toList.tail⟩)

def alphabet : List Char :=
  "ABCDEFGHIJKLMNOPQRSTUVWXYZabcdefghijklmnopqrstuvwxyz0123456789".toList

/-- A random letter or digit.  The upper six bits of a word choose it; a word that chooses none is
passed over.  At most `limit` words are looked at. -/
def drawChar (s : Keystream) : Nat → Option (Char × Keystream)
  | 0 => none
  | limit + 1 =>
    let (word, rest) := s.pop
    match alphabet[(word >>> 26).toNat]? with
    | some c => some (c, rest)
    | none => drawChar rest limit

/-- A run of random letters and digits.  For each of them at most `limit` words are looked at. -/
def drawChars (limit : Nat) (s : Keystream) : Nat → Option (List Char × Keystream)
  | 0 => some ([], s)
  | length + 1 => do
    let (c, s) ← drawChar s limit
    let (cs, s) ← drawChars limit s length
    return (c :: cs, s)

end Keystream

end LijsCompiler
