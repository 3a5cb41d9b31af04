/-! # SHA-1

The 160-bit digest of a message of bytes.  The message is padded to blocks of 64 bytes; each
block is expanded to 80 words, which are worked into a state of five words. -/

namespace FormKernel.Digest

structure State where
  a : UInt32
  b : UInt32
  c : UInt32
  d : UInt32
  e : UInt32
  deriving DecidableEq

def rotate (x n : UInt32) : UInt32 := (x <<< n) ||| (x >>> (32 - n))

/-- The bytes of a number, the most significant first. -/
def bigEndian : Nat → Nat → List UInt8
  | 0, _ => []
  | width + 1, n => bigEndian width (n / 256) ++ [(n % 256).toUInt8]

/-- A message with a one bit, zeros and its length in bits behind it. -/
def padded (message : List UInt8) : List UInt8 :=
  message ++ 0x80 :: List.replicate ((119 - message.length % 64) % 64) 0 ++
    bigEndian 8 (8 * message.length)

def words : List UInt8 → List UInt32
  | a :: b :: c :: d :: rest =>
    ((a.toUInt32 <<< 24) ||| (b.toUInt32 <<< 16) ||| (c.toUInt32 <<< 8) ||| d.toUInt32)
      :: words rest
  | _ => []

/-- A block of words, with words that follow from it. -/
def schedule : Nat → List UInt32 → List UInt32
  | n + 1, w@(a :: rest) =>
    let word (j : Nat) : UInt32 := w[j]?.getD 0
    a :: schedule n (rest ++ [rotate (word 13 ^^^ word 8 ^^^ word 2 ^^^ a) 1])
  | _, w => w

def round (s : State) (i : Nat) (w : UInt32) : State :=
  let (f, k) : UInt32 × UInt32 :=
    if i < 20 then ((s.b &&& s.c) ||| ((~~~ s.b) &&& s.d), 0x5A827999)
    else if i < 40 then (s.b ^^^ s.c ^^^ s.d, 0x6ED9EBA1)
    else if i < 60 then ((s.b &&& s.c) ||| (s.b &&& s.d) ||| (s.c &&& s.d), 0x8F1BBCDC)
    else (s.b ^^^ s.c ^^^ s.d, 0xCA62C1D6)
  ⟨rotate s.a 5 + f + s.e + k + w, s.a, rotate s.b 30, s.c, s.d⟩

def rounds : Nat → State → List UInt32 → State
  | i, s, w :: ws => rounds (i + 1) (round s i w) ws
  | _, s, [] => s

/-- Works a block into a state. -/
def compress (s : State) (block : List UInt32) : State :=
  let t := rounds 0 s (schedule 64 block)
  ⟨s.a + t.a, s.b + t.b, s.c + t.c, s.d + t.d, s.e + t.e⟩

def compressAll : Nat → State → List UInt32 → State
  | 0, s, _ => s
  | n + 1, s, ws => compressAll n (compress s (ws.take 16)) (ws.drop 16)

def sha1 (message : Array UInt8) : State :=
  let ws := words (padded message.toList)
  compressAll (ws.length / 16) ⟨0x67452301, 0xEFCDAB89, 0x98BADCFE, 0x10325476, 0xC3D2E1F0⟩ ws

def wordDigits (w : UInt32) : List Char :=
  let digits := Nat.toDigits 16 w.toNat
  List.replicate (8 - digits.length) '0' ++ digits

/-- A digest as 40 hexadecimal digits. -/
def State.hex (s : State) : String := String.ofList ([s.a, s.b, s.c, s.d, s.e].flatMap wordDigits)

/-- The digest of a text in UTF-8, as hexadecimal digits. -/
def ofText (s : String) : String := (sha1 s.toUTF8.data).hex

end FormKernel.Digest
