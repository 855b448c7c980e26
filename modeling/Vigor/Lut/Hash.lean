import Vigor.Lut.Impl

/-!
# The hash of a packet

The function `rss` of `get_balanced_lut.py`.  It goes through the bits of the
addresses and ports of a packet and rotates the key by one bit for each of them;
where a bit is set, the first 32 bits of the key are added to the hash value.
The key is a list of bytes, and it is rotated through a string of binary digits.
-/

namespace Vigor
namespace Lut

/-! ## Strings of binary digits -/

/-- `bin(k)[2:].zfill(8)`. -/
def bin8 (k : ℕ) : List Char :=
  (Nat.toDigits 2 k).leftpad 8 '0'

/-- The digits of all bytes. -/
def bitstr (bytes : List ℕ) : List Char :=
  bytes.flatMap bin8

/-- `int(digits, 2)`, for strings of the digits 0 and 1. -/
def int2 (digits : List Char) : ℕ :=
  digits.foldl (fun value digit => 2 * value + if digit = '1' then 1 else 0) 0

/-! ## The key -/

/-- `left_most_32bits_of_key`. -/
def leftMost32BitsOfKey : List ℕ → Except Error ℕ
  | k0 :: k1 :: k2 :: k3 :: _ => .ok (k0 <<< 24 ||| k1 <<< 16 ||| k2 <<< 8 ||| k3)
  | _ => .error .index

/-- The loop of `shift_key` that writes the bytes of the key. -/
def readKey : ℕ → List Char → List ℕ
  | 0, _ => []
  | count + 1, shifted => int2 (shifted.take 8) :: readKey count (shifted.drop 8)

/-- `shift_key`. -/
def shiftKey (key : List ℕ) : Except Error (List ℕ) :=
  match bitstr key with
  | [] => .error .index
  | first :: rest => .ok (readKey key.length (rest ++ [first]))

/-! ## The hash value -/

/-- One round of the loop of `compute_hash`: the hash value and the key. -/
def hashRound
    (progress : ℕ × List ℕ)
    (b : Char) : Except Error (ℕ × List ℕ) := do
  let result ←
    if b = '1' then do
      let window ← leftMost32BitsOfKey progress.2
      pure (progress.1 ^^^ window)
    else pure progress.1
  let key ← shiftKey progress.2
  pure (result, key)

/-- `compute_hash`. -/
def computeHash (key inputBytes : List ℕ) : Except Error ℕ := do
  let (result, _) ← (bitstr inputBytes).foldlM hashRound (0, key)
  pure result

/-- The parts of a dotted address. -/
structure Ip where
  first : BitVec 8
  second : BitVec 8
  third : BitVec 8
  fourth : BitVec 8

/-- The fields of a packet that `rss` reads. -/
structure Packet where
  src : Ip
  dst : Ip
  sport : BitVec 16
  dport : BitVec 16

/-- `get_ip_number`. -/
def getIpNumber (ip : Ip) : ℕ :=
  ip.first.toNat <<< 24 ||| ip.second.toNat <<< 16 ||| ip.third.toNat <<< 8 ||| ip.fourth.toNat

/-- `get_input`. -/
def getInput (srcip dstip srcport dstport : ℕ) : List ℕ :=
  [(srcip &&& 0xff000000) >>> 24, (srcip &&& 0x00ff0000) >>> 16,
    (srcip &&& 0x0000ff00) >>> 8, srcip &&& 0x000000ff,
    (dstip &&& 0xff000000) >>> 24, (dstip &&& 0x00ff0000) >>> 16,
    (dstip &&& 0x0000ff00) >>> 8, dstip &&& 0x000000ff,
    (srcport &&& 0xff00) >>> 8, srcport &&& 0x00ff,
    (dstport &&& 0xff00) >>> 8, dstport &&& 0x00ff]

/-- `hash_to_lut_index`. -/
def hashToLutIndex (hashValue : ℕ) : ℕ :=
  hashValue &&& 0x1ff

/-- `rss`. -/
def rss
    (key : List ℕ)
    (pkt : Packet) : Except Error ℕ :=
  if key = [] then .error .assertion
  else do
    let hashInput := getInput (getIpNumber pkt.src) (getIpNumber pkt.dst) pkt.sport.toNat
      pkt.dport.toNat
    let hashValue ← computeHash key hashInput
    pure (hashToLutIndex hashValue)

end Lut
end Vigor
