import ShellProbe.Text.Utf8

/-!
# SHA-1

The Secure Hash Algorithm 1 of FIPS 180-4, on lists of bytes. A message is padded to whole blocks
of sixteen words of 32 bits; each block is stretched to eighty words and folded into a state of
five.
-/

namespace ShellProbe

namespace Sha1

/-- The five words of the state. -/
structure State where
  a : UInt32
  b : UInt32
  c : UInt32
  d : UInt32
  e : UInt32
  deriving DecidableEq, Repr

def initial : State := ⟨0x67452301, 0xEFCDAB89, 0x98BADCFE, 0x10325476, 0xC3D2E1F0⟩

def State.add (s t : State) : State := ⟨s.a + t.a, s.b + t.b, s.c + t.c, s.d + t.d, s.e + t.e⟩

def rotateLeft (x : UInt32) (n : UInt32) : UInt32 := (x <<< n) ||| (x >>> (32 - n))

/-- The eight bytes of a length in bits, most significant first. -/
def lengthBytes (bits : Nat) : Bytes :=
  (List.range 8).reverse.map fun i => UInt8.ofNat (bits >>> (8 * i))

/-- A message with the padding that fills its last block. -/
def pad (message : Bytes) : Bytes :=
  let zeros := (119 - message.length % 64) % 64
  message ++ 0x80 :: List.replicate zeros 0 ++ lengthBytes (8 * message.length)

/-- Bytes as words, most significant byte first. -/
def words : Bytes → List UInt32
  | a :: b :: c :: d :: t =>
    ((a.toUInt32 <<< 24) ||| (b.toUInt32 <<< 16) ||| (c.toUInt32 <<< 8) ||| d.toUInt32) :: words t
  | _ => []

/-- Words cut into blocks of sixteen. -/
def blocks (ws : List UInt32) : List (List UInt32) :=
  if ws.length < 16 then [] else ws.take 16 :: blocks (ws.drop 16)
termination_by ws.length
decreasing_by simp only [List.length_drop]; omega

/-- Adds words to a block, whose words come newest first. -/
def stretch : Nat → List UInt32 → List UInt32
  | 0, ws => ws
  | n + 1, ws =>
    stretch n (rotateLeft (ws.getD 2 0 ^^^ ws.getD 7 0 ^^^ ws.getD 13 0 ^^^ ws.getD 15 0) 1 :: ws)

/-- The function and the constant of a round. -/
def mix (round : Nat) (s : State) : UInt32 × UInt32 :=
  if round < 20 then ((s.b &&& s.c) ||| (~~~s.b &&& s.d), 0x5A827999)
  else if round < 40 then (s.b ^^^ s.c ^^^ s.d, 0x6ED9EBA1)
  else if round < 60 then ((s.b &&& s.c) ||| (s.b &&& s.d) ||| (s.c &&& s.d), 0x8F1BBCDC)
  else (s.b ^^^ s.c ^^^ s.d, 0xCA62C1D6)

def step (round : Nat) (s : State) (w : UInt32) : State :=
  let (f, k) := mix round s
  ⟨rotateLeft s.a 5 + f + s.e + k + w, s.a, rotateLeft s.b 30, s.c, s.d⟩

def rounds (s : State) : Nat → List UInt32 → State
  | _, [] => s
  | round, w :: ws => rounds (step round s w) (round + 1) ws

def compress (s : State) (block : List UInt32) : State :=
  s.add (rounds s 0 (stretch 64 block.reverse).reverse)

/-- The digest of a message. -/
def digest (message : Bytes) : State := (blocks (words (pad message))).foldl compress initial

end Sha1

end ShellProbe
