import Vigor.Library.FaultLoops
import Vigor.Library.SelectedXor
import Vigor.Lut.Hash
import Mathlib.Data.List.Rotate

/-!
# Linearity and symmetry of the hash

The hash value is the exclusive or of windows of the key, one for each bit of
the input that is set.  So it is linear in the input, and a packet and its
answer have the same index in the table for every packet just if the windows for
the fields that change places are the same.
-/

namespace Vigor
namespace Lut

open SelectedXor (select)

/-! ## Bits -/

/-- The bits of a byte, the highest one first. -/
def byteBits (byte : ℕ) : List Bool :=
  (List.range 8).map fun i => byte.testBit (7 - i)

/-- The bits of all bytes. -/
def bits (bytes : List ℕ) : List Bool :=
  bytes.flatMap byteBits

/-- The number with the given bits, the highest one first. -/
def ofBits (bits : List Bool) : ℕ :=
  bits.foldl (fun value bit => 2 * value + bit.toNat) 0

/-- All numbers of the list are bytes. -/
def AreBytes (bytes : List ℕ) : Prop :=
  ∀ byte ∈ bytes, byte < 256

/-- The window of 32 bits of the key from a bit on. -/
def window
    (key : List ℕ)
    (start : ℕ) : ℕ :=
  ofBits (((bits key).drop start).take 32)

/-- The low nine bits of a window, which are those that select the entry of the
table. -/
def lutWindow
    (key : List ℕ)
    (start : ℕ) : ℕ :=
  window key start &&& 0x1ff

/-- A binary digit. -/
def digit (bit : Bool) : Char :=
  if bit then '1' else '0'

theorem length_byteBits (byte : ℕ) : (byteBits byte).length = 8 := by
  unfold byteBits
  rw [List.length_map, List.length_range]

theorem length_bits (bytes : List ℕ) :
    (bits bytes).length = 8 * bytes.length := by
  unfold bits
  rw [List.length_flatMap]
  simp [length_byteBits, Nat.mul_comm]

theorem bits_cons
    (byte : ℕ)
    (bytes : List ℕ) :
    bits (byte :: bytes) = byteBits byte ++ bits bytes :=
  rfl

theorem bits_append (first second : List ℕ) :
    bits (first ++ second) = bits first ++ bits second :=
  List.flatMap_append

theorem bin8_eq
    {byte : ℕ}
    (isByte : byte < 256) :
    bin8 byte = (byteBits byte).map digit := by
  have all : ∀ byte : Fin 256, bin8 byte = (byteBits byte).map digit := by decide +kernel
  exact all ⟨byte, isByte⟩

theorem bitstr_eq
    {bytes : List ℕ}
    (areBytes : AreBytes bytes) :
    bitstr bytes = (bits bytes).map digit := by
  unfold bitstr bits
  rw [List.map_flatMap]
  apply List.flatMap_congr
  intro byte member
  exact bin8_eq (areBytes byte member)

theorem int2_map_digit (bits : List Bool) :
    int2 (bits.map digit) = ofBits bits := by
  unfold int2 ofBits
  rw [List.foldl_map]
  congr 1
  funext value bit
  cases bit <;> rfl

theorem byteBits_ofBits
    {bits : List Bool}
    (isLength : bits.length = 8) :
    ofBits bits < 256 ∧ byteBits (ofBits bits) = bits := by
  have all : ∀ b0 b1 b2 b3 b4 b5 b6 b7 : Bool,
      ofBits [b0, b1, b2, b3, b4, b5, b6, b7] < 256 ∧
        byteBits (ofBits [b0, b1, b2, b3, b4, b5, b6, b7]) = [b0, b1, b2, b3, b4, b5, b6, b7] := by
    decide +kernel
  match bits, isLength with
  | [b0, b1, b2, b3, b4, b5, b6, b7], _ => exact all b0 b1 b2 b3 b4 b5 b6 b7

theorem ofBits_append (first second : List Bool) :
    ofBits (first ++ second) =
      ofBits first * 2 ^ second.length + ofBits second := by
  unfold ofBits
  rw [List.foldl_append]
  generalize first.foldl (fun value bit => 2 * value + bit.toNat) 0 = value
  induction second using List.reverseRecOn with
  | nil => simp
  | append_singleton second bit ih =>
      rw [List.foldl_append, List.foldl_append, ih, List.length_append,
        List.length_singleton, Nat.pow_succ, ← Nat.mul_assoc]
      simp only [List.foldl_cons, List.foldl_nil]
      omega

theorem ofBits_byteBits
    {byte : ℕ}
    (isByte : byte < 256) :
    ofBits (byteBits byte) = byte := by
  have all : ∀ byte : Fin 256, ofBits (byteBits byte) = byte := by decide +kernel
  exact all ⟨byte, isByte⟩

theorem shifted_bytes
    (byte1 : k1 < 256)
    (byte2 : k2 < 256)
    (byte3 : k3 < 256) :
    k0 <<< 24 ||| k1 <<< 16 ||| k2 <<< 8 ||| k3 =
      ((k0 * 256 + k1) * 256 + k2) * 256 + k3 := by
  rw [Nat.or_assoc, Nat.or_assoc, ← Nat.shiftLeft_add_eq_or_of_lt (by omega : k3 < 2 ^ 8),
    ← Nat.shiftLeft_add_eq_or_of_lt (by rw [Nat.shiftLeft_eq]; omega : k2 <<< 8 + k3 < 2 ^ 16),
    ← Nat.shiftLeft_add_eq_or_of_lt
      (by simp only [Nat.shiftLeft_eq]; omega : k1 <<< 16 + (k2 <<< 8 + k3) < 2 ^ 24)]
  simp only [Nat.shiftLeft_eq]
  omega

/-! ## Rotating the key -/

theorem readKey_spec
    {count : ℕ}
    {keyBits : List Bool}
    (isLength : keyBits.length = 8 * count) :
    AreBytes (readKey count (keyBits.map digit)) ∧
      (readKey count (keyBits.map digit)).length = count ∧
      bits (readKey count (keyBits.map digit)) = keyBits := by
  induction count generalizing keyBits with
  | zero =>
      obtain rfl := List.eq_nil_of_length_eq_zero isLength
      refine ⟨?_, rfl, rfl⟩
      intro byte member
      cases member
  | succ count ih =>
      have firstLength : (keyBits.take 8).length = 8 := by
        rw [List.length_take]
        omega
      obtain ⟨isByte, sameBits⟩ := byteBits_ofBits firstLength
      obtain ⟨areBytes, lengths, sameRest⟩ :=
        ih (by rw [List.length_drop]; omega : (keyBits.drop 8).length = 8 * count)
      rw [readKey, ← List.map_take, ← List.map_drop, int2_map_digit]
      refine ⟨?_, congrArg (· + 1) lengths, ?_⟩
      · intro byte member
        rcases List.mem_cons.mp member with rfl | later
        · exact isByte
        · exact areBytes byte later
      · rw [bits_cons, sameBits, sameRest, List.take_append_drop]

theorem shiftKey_ok
    {key : List ℕ}
    (areBytes : AreBytes key)
    (nonempty : key ≠ []) :
    ∃ shifted, shiftKey key = .ok shifted ∧ AreBytes shifted ∧
      shifted.length = key.length ∧ bits shifted = (bits key).rotate 1 := by
  have isLength := length_bits key
  have positive := List.length_pos_iff.mpr nonempty
  unfold shiftKey
  rw [bitstr_eq areBytes]
  cases keyBits : bits key with
  | nil =>
      rw [keyBits, List.length_nil] at isLength
      omega
  | cons bit rest =>
      rw [keyBits, List.length_cons] at isLength
      have rotated : (rest ++ [bit]).length = 8 * key.length := by
        rw [List.length_append, List.length_singleton]
        exact isLength
      obtain ⟨shiftedBytes, lengths, sameBits⟩ := readKey_spec rotated
      rw [List.map_append, List.map_singleton] at shiftedBytes lengths sameBits
      refine ⟨_, rfl, shiftedBytes, lengths, ?_⟩
      rw [sameBits, List.rotate_cons_succ, List.rotate_zero]

theorem leftMost32BitsOfKey_ok
    (areBytes : AreBytes key)
    (long : 4 ≤ key.length) :
    leftMost32BitsOfKey key = .ok (ofBits ((bits key).take 32)) := by
  match key, long with
  | k0 :: k1 :: k2 :: k3 :: rest, _ =>
      have byte0 : k0 < 256 := areBytes k0 (by simp)
      have byte1 : k1 < 256 := areBytes k1 (by simp)
      have byte2 : k2 < 256 := areBytes k2 (by simp)
      have byte3 : k3 < 256 := areBytes k3 (by simp)
      have firstBits : (bits (k0 :: k1 :: k2 :: k3 :: rest)).take 32 =
          byteBits k0 ++ byteBits k1 ++ byteBits k2 ++ byteBits k3 := by
        simp only [bits_cons, ← List.append_assoc]
        apply List.take_left'
        simp only [List.length_append, length_byteBits]
      rw [leftMost32BitsOfKey, shifted_bytes byte1 byte2 byte3, firstBits]
      simp only [ofBits_append, length_byteBits, ofBits_byteBits byte0, ofBits_byteBits byte1,
        ofBits_byteBits byte2, ofBits_byteBits byte3, Nat.reducePow]

/-! ## The hash value as a sum of windows -/

/-- The windows of the rotated keys. -/
def rotations
    (key : List ℕ)
    (count : ℕ) : List ℕ :=
  (List.range count).map fun start => ofBits (((bits key).rotate start).take 32)

theorem rotations_succ
    (rotated : bits shifted = (bits key).rotate 1)
    (count : ℕ) :
    rotations key (count + 1) =
      ofBits ((bits key).take 32) :: rotations shifted count := by
  unfold rotations
  rw [List.range_succ_eq_map, List.map_cons, List.map_map, List.rotate_zero, rotated]
  congr 1
  apply List.map_congr_left
  intro start _
  rw [List.rotate_rotate, Nat.add_comm]
  rfl

theorem hashRound_ok
    (areBytes : AreBytes key)
    (long : 4 ≤ key.length)
    (result : ℕ)
    (bit : Bool) :
    ∃ shifted,
      hashRound (result, key) (digit bit) =
        .ok (result ^^^ (if bit then ofBits ((bits key).take 32) else 0),
          shifted) ∧
      AreBytes shifted ∧ shifted.length = key.length ∧
      bits shifted = (bits key).rotate 1 := by
  have nonempty : key ≠ [] := by
    rintro rfl
    cases long
  obtain ⟨shifted, shifts, shiftedBytes, lengths, rotated⟩ := shiftKey_ok areBytes nonempty
  refine ⟨shifted, ?_, shiftedBytes, lengths, rotated⟩
  unfold hashRound
  dsimp only
  rw [shifts, leftMost32BitsOfKey_ok areBytes long]
  cases bit with
  | false =>
      rw [if_neg Bool.false_ne_true, Nat.xor_zero]
      rfl
  | true => rfl

/-- The loop adds the windows whose bits are set. -/
theorem foldlM_hashRound
    (areBytes : AreBytes key)
    (long : 4 ≤ key.length)
    (inputBits : List Bool)
    (result : ℕ) :
    ∃ final, (inputBits.map digit).foldlM hashRound (result, key) =
      .ok (result ^^^ select inputBits (rotations key inputBits.length),
        final) := by
  induction inputBits generalizing key result with
  | nil =>
      refine ⟨key, ?_⟩
      rw [SelectedXor.select_nil, Nat.xor_zero]
      rfl
  | cons bit inputBits ih =>
      obtain ⟨shifted, rounds, shiftedBytes, lengths, rotated⟩ :=
        hashRound_ok areBytes long result bit
      obtain ⟨final, rest⟩ := ih shiftedBytes (lengths ▸ long)
        (result ^^^ if bit then ofBits ((bits key).take 32) else 0)
      refine ⟨final, ?_⟩
      rw [List.map_cons, FaultLoops.foldlM_cons_ok rounds, rest, List.length_cons,
        rotations_succ rotated, SelectedXor.select_cons, Nat.xor_assoc]

section Hash

variable
  {key : List ℕ}
  (areBytes : AreBytes key)
  (long : 16 ≤ key.length)

include long in
theorem rotations_eq_windows :
    rotations key 96 = (List.range 96).map (window key) := by
  have isLength := length_bits key
  unfold rotations window
  apply List.map_congr_left
  intro start member
  have inside := List.mem_range.mp member
  have enough : 32 ≤ ((bits key).drop start).length := by
    rw [List.length_drop]
    omega
  rw [List.rotate_eq_drop_append_take (by omega), List.take_append_of_le_length enough]

include areBytes long

theorem computeHash_eq
    (inputBytes : AreBytes input)
    (inputLength : input.length = 12) :
    computeHash key input =
      .ok (select (bits input) ((List.range 96).map (window key))) := by
  obtain ⟨final, loops⟩ := foldlM_hashRound areBytes (by omega) (bits input) 0
  rw [length_bits, inputLength, Nat.zero_xor, rotations_eq_windows long] at loops
  unfold computeHash
  rw [bitstr_eq inputBytes, loops]
  rfl

end Hash

/-! ## Linearity -/

theorem byteBits_xor (first second : ℕ) :
    byteBits (first ^^^ second) =
      List.zipWith xor (byteBits first) (byteBits second) := by
  unfold byteBits
  rw [List.zipWith_map, List.zipWith_self]
  apply List.map_congr_left
  intro i _
  exact Nat.testBit_xor first second _

theorem bits_zipWith_xor (lengths : first.length = second.length) :
    bits (List.zipWith (· ^^^ ·) first second) =
      List.zipWith xor (bits first) (bits second) := by
  induction first generalizing second with
  | nil => simp [bits]
  | cons byte first ih =>
      cases second with
      | nil => cases lengths
      | cons other second =>
          rw [List.zipWith_cons_cons, bits_cons, bits_cons, bits_cons,
            byteBits_xor, ih (Nat.succ.inj lengths), List.zipWith_append]
          rw [length_byteBits, length_byteBits]

theorem areBytes_zipWith_xor
    (firstBytes : AreBytes first)
    (secondBytes : AreBytes second) :
    AreBytes (List.zipWith (· ^^^ ·) first second) := by
  induction first generalizing second with
  | nil =>
      intro byte member
      rw [List.zipWith_nil_left] at member
      cases member
  | cons byte first ih =>
      cases second with
      | nil =>
          intro byte member
          cases member
      | cons other second =>
          obtain ⟨isByte, restBytes⟩ := List.forall_mem_cons.mp firstBytes
          obtain ⟨isOther, otherBytes⟩ := List.forall_mem_cons.mp secondBytes
          refine List.forall_mem_cons.mpr ⟨?_, ih restBytes otherBytes⟩
          exact Nat.xor_lt_two_pow (n := 8) isByte isOther

/-! ## Packets -/

/-- The bits of an address. -/
def Ip.bits (ip : Ip) : List Bool :=
  Lut.bits [ip.first.toNat, ip.second.toNat, ip.third.toNat, ip.fourth.toNat]

/-- The bits of a port. -/
def portBits (port : BitVec 16) : List Bool :=
  bits [port.toNat / 256, port.toNat % 256]

theorem low_byte (n : ℕ) : n &&& 0xff = n % 256 :=
  Nat.and_two_pow_sub_one_eq_mod n 8

theorem masked_byte
    {mask shift : ℕ}
    (isMask : mask = 0xff <<< shift)
    (n : ℕ) :
    (n &&& mask) >>> shift = n / 2 ^ shift % 256 := by
  rw [isMask, Nat.shiftRight_and_distrib, Nat.shiftLeft_shiftRight, low_byte,
    Nat.shiftRight_eq_div_pow]

theorem getIpNumber_bytes (ip : Ip) :
    (getIpNumber ip &&& 0xff000000) >>> 24 = ip.first.toNat ∧
      (getIpNumber ip &&& 0x00ff0000) >>> 16 = ip.second.toNat ∧
      (getIpNumber ip &&& 0x0000ff00) >>> 8 = ip.third.toNat ∧
      getIpNumber ip &&& 0x000000ff = ip.fourth.toNat := by
  have isByte : ∀ byte : BitVec 8, byte.toNat < 256 := fun byte => byte.isLt
  have first := isByte ip.first
  have second := isByte ip.second
  have third := isByte ip.third
  have fourth := isByte ip.fourth
  have number : getIpNumber ip = _ := shifted_bytes second third fourth
  rw [masked_byte (by decide : 0xff000000 = 0xff <<< 24),
    masked_byte (by decide : 0x00ff0000 = 0xff <<< 16),
    masked_byte (by decide : 0x0000ff00 = 0xff <<< 8), low_byte, number]
  refine ⟨?_, ?_, ?_, ?_⟩ <;> omega

theorem port_bytes (port : BitVec 16) :
    (port.toNat &&& 0xff00) >>> 8 = port.toNat / 256 ∧
      port.toNat &&& 0x00ff = port.toNat % 256 := by
  have isPort := port.isLt
  rw [masked_byte (by decide : 0xff00 = 0xff <<< 8), low_byte]
  constructor <;> omega

theorem getInput_eq
    (src dst : Ip)
    (sport dport : BitVec 16) :
    getInput (getIpNumber src) (getIpNumber dst) sport.toNat dport.toNat =
      [src.first.toNat, src.second.toNat, src.third.toNat, src.fourth.toNat] ++
        [dst.first.toNat, dst.second.toNat, dst.third.toNat,
          dst.fourth.toNat] ++
        [sport.toNat / 256, sport.toNat % 256] ++
          [dport.toNat / 256, dport.toNat % 256] := by
  obtain ⟨src0, src1, src2, src3⟩ := getIpNumber_bytes src
  obtain ⟨dst0, dst1, dst2, dst3⟩ := getIpNumber_bytes dst
  obtain ⟨sport0, sport1⟩ := port_bytes sport
  obtain ⟨dport0, dport1⟩ := port_bytes dport
  unfold getInput
  rw [src0, src1, src2, src3, dst0, dst1, dst2, dst3, sport0, sport1, dport0, dport1]
  rfl

theorem Ip.areBytes (ip : Ip) :
    AreBytes [ip.first.toNat, ip.second.toNat, ip.third.toNat,
      ip.fourth.toNat] := by
  have isByte : ∀ byte : BitVec 8, byte.toNat < 256 := fun byte => byte.isLt
  intro byte member
  simp only [List.mem_cons, List.not_mem_nil, or_false] at member
  rcases member with rfl | rfl | rfl | rfl
  all_goals exact isByte _

theorem areBytes_port (port : BitVec 16) :
    AreBytes [port.toNat / 256, port.toNat % 256] := by
  have isPort := port.isLt
  intro byte member
  simp only [List.mem_cons, List.not_mem_nil, or_false] at member
  rcases member with rfl | rfl
  all_goals omega

/-- The bits of the input of a packet. -/
def Packet.bits (pkt : Packet) : List Bool :=
  pkt.src.bits ++ pkt.dst.bits ++ portBits pkt.sport ++ portBits pkt.dport

theorem Ip.length_bits (ip : Ip) : ip.bits.length = 32 :=
  Lut.length_bits _

theorem length_portBits (port : BitVec 16) : (portBits port).length = 16 :=
  length_bits _

/-- Every list of 32 bits is an address. -/
theorem exists_ip
    {addressBits : List Bool}
    (isLength : addressBits.length = 32) :
    ∃ ip : Ip, ip.bits = addressBits := by
  have eightEach : addressBits.length = 8 * 4 := isLength
  obtain ⟨areBytes, lengths, sameBits⟩ := readKey_spec eightEach
  match bytes : readKey 4 (addressBits.map digit), lengths with
  | [first, second, third, fourth], _ =>
      rw [bytes] at areBytes sameBits
      refine ⟨⟨.ofNat 8 first, .ofNat 8 second, .ofNat 8 third, .ofNat 8 fourth⟩, ?_⟩
      have same : ∀ byte ∈ [first, second, third, fourth], (BitVec.ofNat 8 byte).toNat = byte :=
        fun byte member => Nat.mod_eq_of_lt (areBytes byte member)
      unfold Ip.bits
      dsimp only
      rw [same first (by simp), same second (by simp), same third (by simp), same fourth (by simp)]
      exact sameBits

theorem exists_port
    {numberBits : List Bool}
    (isLength : numberBits.length = 16) :
    ∃ port, portBits port = numberBits := by
  have eightEach : numberBits.length = 8 * 2 := isLength
  obtain ⟨areBytes, lengths, sameBits⟩ := readKey_spec eightEach
  match bytes : readKey 2 (numberBits.map digit), lengths with
  | [high, low], _ =>
      rw [bytes] at areBytes sameBits
      have isHigh : high < 256 := areBytes high (by simp)
      have isLow : low < 256 := areBytes low (by simp)
      refine ⟨.ofNat 16 (high * 256 + low), ?_⟩
      have same : (BitVec.ofNat 16 (high * 256 + low)).toNat = high * 256 + low :=
        Nat.mod_eq_of_lt (by omega)
      unfold portBits
      rw [same, (by omega : (high * 256 + low) / 256 = high),
        (by omega : (high * 256 + low) % 256 = low)]
      exact sameBits

/-- The packet in the other direction. -/
def Packet.swap (pkt : Packet) : Packet where
  src := pkt.dst
  dst := pkt.src
  sport := pkt.dport
  dport := pkt.sport

/-- What the fields of a packet add to its index. -/
def packetIndex
    (key : List ℕ)
    (pkt : Packet) : ℕ :=
  (select pkt.src.bits ((List.range 32).map (lutWindow key)) ^^^
    select pkt.dst.bits ((List.range 32).map fun i => lutWindow key (32 + i))) ^^^
  (select (portBits pkt.sport) ((List.range 16).map fun i => lutWindow key (64 + i)) ^^^
    select (portBits pkt.dport) ((List.range 16).map fun i => lutWindow key (80 + i)))

theorem select_bits_eq
    (key : List ℕ)
    (pkt : Packet) :
    select pkt.bits ((List.range 96).map (lutWindow key)) =
      packetIndex key pkt := by
  have parts : (List.range 96).map (lutWindow key) =
      (List.range 32).map (lutWindow key) ++
        (List.range 32).map (fun i => lutWindow key (32 + i)) ++
        (List.range 16).map (fun i => lutWindow key (64 + i)) ++
        (List.range 16).map (fun i => lutWindow key (80 + i)) := by
    rw [(by rfl : 96 = 32 + 32 + 16 + 16), List.range_add, List.range_add, List.range_add]
    simp only [List.map_append, List.map_map]
    rfl
  unfold Packet.bits packetIndex
  rw [parts, SelectedXor.select_append, SelectedXor.select_append,
    SelectedXor.select_append, Nat.xor_assoc]
  all_goals simp [Ip.length_bits, length_portBits]

section Symmetry

variable
  {key : List ℕ}
  (areBytes : AreBytes key)
  (long : 16 ≤ key.length)

section Rss

include areBytes long

theorem rss_eq (pkt : Packet) : rss key pkt = .ok (packetIndex key pkt) := by
  have nonempty : ¬key = [] := by
    rintro rfl
    cases long
  have inputBits : bits (getInput (getIpNumber pkt.src) (getIpNumber pkt.dst) pkt.sport.toNat
      pkt.dport.toNat) = pkt.bits := by
    rw [getInput_eq, bits_append, bits_append, bits_append]
    rfl
  have inputBytes : AreBytes (getInput (getIpNumber pkt.src) (getIpNumber pkt.dst)
      pkt.sport.toNat pkt.dport.toNat) := by
    rw [getInput_eq]
    exact List.forall_mem_append.mpr ⟨List.forall_mem_append.mpr
      ⟨List.forall_mem_append.mpr ⟨pkt.src.areBytes, pkt.dst.areBytes⟩,
        areBytes_port pkt.sport⟩, areBytes_port pkt.dport⟩
  unfold rss
  rw [if_neg nonempty]
  dsimp only
  rw [computeHash_eq areBytes long inputBytes rfl, inputBits]
  change Except.ok (select _ _ &&& _) = _
  rw [SelectedXor.select_and, List.map_map, ← select_bits_eq]
  rfl

end Rss

theorem packetIndex_swap
    (addresses : ∀ i < 32, lutWindow key i = lutWindow key (i + 32))
    (ports : ∀ i < 16, lutWindow key (64 + i) = lutWindow key (80 + i))
    (pkt : Packet) :
    packetIndex key pkt.swap = packetIndex key pkt := by
  have sameAddresses : (List.range 32).map (lutWindow key) =
      (List.range 32).map fun i => lutWindow key (32 + i) := by
    apply List.map_congr_left
    intro i member
    rw [addresses i (List.mem_range.mp member), Nat.add_comm]
  have samePorts : ((List.range 16).map fun i => lutWindow key (64 + i)) =
      (List.range 16).map fun i => lutWindow key (80 + i) := by
    apply List.map_congr_left
    intro i member
    exact ports i (List.mem_range.mp member)
  unfold packetIndex Packet.swap
  rw [sameAddresses, samePorts]
  dsimp only
  rw [Nat.xor_comm (select pkt.dst.bits _), Nat.xor_comm (select (portBits pkt.dport) _)]

section Converse

variable (symmetric : ∀ pkt, packetIndex key pkt.swap = packetIndex key pkt)

include symmetric

theorem addresses_of_symmetric :
    ∀ i < 32, lutWindow key i = lutWindow key (i + 32) := by
  obtain ⟨zeroIp, zeroAddress⟩ : ∃ ip : Ip, ip.bits = List.replicate 32 false :=
    exists_ip List.length_replicate
  have same : (List.range 32).map (lutWindow key) =
      (List.range 32).map fun i => lutWindow key (32 + i) := by
    apply SelectedXor.eq_of_forall_select_eq (by simp)
    intro addressBits isLength
    rw [List.length_map, List.length_range] at isLength
    obtain ⟨ip, rfl⟩ := exists_ip isLength
    -- With the other address zero, only one of the two groups of windows is selected.
    have equal := symmetric ⟨ip, zeroIp, 0, 0⟩
    unfold packetIndex Packet.swap at equal
    dsimp only at equal
    rw [zeroAddress, SelectedXor.select_replicate_false,
      SelectedXor.select_replicate_false, Nat.zero_xor, Nat.xor_zero] at equal
    exact (Nat.xor_left_injective.eq_iff.mp equal).symm
  intro i inside
  rw [Nat.add_comm]
  exact List.map_inj_left.mp same i (List.mem_range.mpr inside)

theorem ports_of_symmetric :
    ∀ i < 16, lutWindow key (64 + i) = lutWindow key (80 + i) := by
  obtain ⟨zeroIp, zeroAddress⟩ : ∃ ip : Ip, ip.bits = List.replicate 32 false :=
    exists_ip List.length_replicate
  obtain ⟨zeroPort, zeroNumber⟩ : ∃ port, portBits port = List.replicate 16 false :=
    exists_port List.length_replicate
  have same : ((List.range 16).map fun i => lutWindow key (64 + i)) =
      (List.range 16).map fun i => lutWindow key (80 + i) := by
    apply SelectedXor.eq_of_forall_select_eq (by simp)
    intro numberBits isLength
    rw [List.length_map, List.length_range] at isLength
    obtain ⟨port, rfl⟩ := exists_port isLength
    have equal := symmetric ⟨zeroIp, zeroIp, port, zeroPort⟩
    unfold packetIndex Packet.swap at equal
    dsimp only at equal
    simp only [zeroAddress, zeroNumber, SelectedXor.select_replicate_false,
      Nat.zero_xor, Nat.xor_zero] at equal
    exact equal.symm
  intro i inside
  exact List.map_inj_left.mp same i (List.mem_range.mpr inside)

end Converse

/-- The hash value is linear in the input, and the index of packets is the same
in both directions just if the windows for the fields that change places are the
same. -/
theorem hash_linear_and_symmetric_iff
    (areBytes : AreBytes key)
    (long : 16 ≤ key.length) :
    (∀ first second, AreBytes first → first.length = 12 → AreBytes second →
      second.length = 12 →
        ∃ firstHash secondHash, computeHash key first = .ok firstHash ∧
          computeHash key second = .ok secondHash ∧
          computeHash key (List.zipWith (· ^^^ ·) first second) =
            .ok (firstHash ^^^ secondHash)) ∧
    (∀ pkt, ∃ index, rss key pkt = .ok index) ∧
    ((∀ pkt, rss key pkt.swap = rss key pkt) ↔
      (∀ i < 32, lutWindow key i = lutWindow key (i + 32)) ∧
        ∀ i < 16, lutWindow key (64 + i) = lutWindow key (80 + i)) := by
  refine ⟨?_, fun pkt => ⟨_, rss_eq areBytes long pkt⟩, ?_, ?_⟩
  · intro first second firstBytes firstLength secondBytes secondLength
    have lengths : first.length = second.length := firstLength.trans secondLength.symm
    have bothLength : (List.zipWith (· ^^^ ·) first second).length = 12 := by
      rw [List.length_zipWith, firstLength, secondLength, Nat.min_self]
    refine ⟨_, _, computeHash_eq areBytes long firstBytes firstLength,
      computeHash_eq areBytes long secondBytes secondLength, ?_⟩
    rw [computeHash_eq areBytes long (areBytes_zipWith_xor firstBytes secondBytes) bothLength,
      bits_zipWith_xor lengths, SelectedXor.select_zipWith_xor]
    rw [length_bits, length_bits, lengths]
  · intro symmetric
    have packets : ∀ pkt, packetIndex key pkt.swap = packetIndex key pkt := by
      intro pkt
      have equal := symmetric pkt
      rw [rss_eq areBytes long, rss_eq areBytes long] at equal
      exact Except.ok.inj equal
    exact ⟨addresses_of_symmetric packets, ports_of_symmetric packets⟩
  · rintro ⟨addresses, ports⟩ pkt
    rw [rss_eq areBytes long, rss_eq areBytes long, packetIndex_swap addresses ports]

end Symmetry

/-- A key of two bytes that are repeated. -/
def repeatedKey : List ℕ :=
  (List.replicate 8 [0x6d, 0x5a]).flatten

/-- With a repeated key all packets have the same index in both directions. -/
theorem repeatedKey_symmetric :
    AreBytes repeatedKey ∧ repeatedKey.length = 16 ∧
      ∀ pkt, rss repeatedKey pkt.swap = rss repeatedKey pkt := by
  have areBytes : AreBytes repeatedKey := by
    unfold AreBytes
    decide
  refine ⟨areBytes, rfl, ?_⟩
  exact (hash_linear_and_symmetric_iff areBytes (Nat.le_refl 16)).2.2.mpr
    ⟨by decide +kernel, by decide +kernel⟩

end Lut
end Vigor
