import Bookstore.HttpTypes
import Mathlib.Data.List.Basic

/-!
SHA-256 as the server computes it, and the 64 hexadecimal digits of a digest.
Words wrap modulo 2^32; the length of a text is a `size_t` of 64 bits.
-/
namespace Bookstore.Sha256

open HttpTypes

def rotr (x n : UInt32) : UInt32 := (x >>> n) ||| (x <<< (32 - n))

/-- `load_be32` on the bytes that start at a pointer. -/
def loadBe32 (p : Bytes) : UInt32 :=
  ((p.getD 0 0).toUInt32 <<< 24) ||| ((p.getD 1 0).toUInt32 <<< 16) |||
    ((p.getD 2 0).toUInt32 <<< 8) ||| (p.getD 3 0).toUInt32

def storeBe64 (v : UInt64) : Bytes :=
  [(v >>> 56).toUInt8, (v >>> 48).toUInt8, (v >>> 40).toUInt8, (v >>> 32).toUInt8,
    (v >>> 24).toUInt8, (v >>> 16).toUInt8, (v >>> 8).toUInt8, v.toUInt8]

/-- The table `K`. -/
def roundConstants : List UInt32 :=
  [0x428a2f98, 0x71374491, 0xb5c0fbcf, 0xe9b5dba5,
    0x3956c25b, 0x59f111f1, 0x923f82a4, 0xab1c5ed5,
    0xd807aa98, 0x12835b01, 0x243185be, 0x550c7dc3,
    0x72be5d74, 0x80deb1fe, 0x9bdc06a7, 0xc19bf174,
    0xe49b69c1, 0xefbe4786, 0x0fc19dc6, 0x240ca1cc,
    0x2de92c6f, 0x4a7484aa, 0x5cb0a9dc, 0x76f988da,
    0x983e5152, 0xa831c66d, 0xb00327c8, 0xbf597fc7,
    0xc6e00bf3, 0xd5a79147, 0x06ca6351, 0x14292967,
    0x27b70a85, 0x2e1b2138, 0x4d2c6dfc, 0x53380d13,
    0x650a7354, 0x766a0abb, 0x81c2c92e, 0x92722c85,
    0xa2bfe8a1, 0xa81a664b, 0xc24b8b70, 0xc76c51a3,
    0xd192e819, 0xd6990624, 0xf40e3585, 0x106aa070,
    0x19a4c116, 0x1e376c08, 0x2748774c, 0x34b0bcb5,
    0x391c0cb3, 0x4ed8aa4a, 0x5b9cca4f, 0x682e6ff3,
    0x748f82ee, 0x78a5636f, 0x84c87814, 0x8cc70208,
    0x90befffa, 0xa4506ceb, 0xbef9a3f7, 0xc67178f2]

/-- The words `h`, and the variables of a block under the same letters. -/
structure Words where
  a : UInt32
  b : UInt32
  c : UInt32
  d : UInt32
  e : UInt32
  f : UInt32
  g : UInt32
  hh : UInt32

def initial : Words :=
  ⟨0x6a09e667, 0xbb67ae85, 0x3c6ef372, 0xa54ff53a, 0x510e527f, 0x9b05688c, 0x1f83d9ab, 0x5be0cd19⟩

/-! ## Padding -/

/-- The loop that appends zero bytes up to 56 modulo 64. -/
def zeroPad : ℕ → Bytes → Bytes
  | 0, msg => msg
  | fuel + 1, msg => if msg.length % 64 ≠ 56 then zeroPad fuel (msg ++ [0]) else msg

/-- The message with its end mark, its zeros and its length in bits. -/
def padded (text : Bytes) : Bytes :=
  zeroPad 64 (text ++ [0x80]) ++ storeBe64 (UInt64.ofNat (text.length * 8))

theorem zeroPad_length (fuel : ℕ) (msg : Bytes) (h : (120 - msg.length % 64) % 64 ≤ fuel) :
    (zeroPad fuel msg).length % 64 = 56 := by
  induction fuel generalizing msg with
  | zero =>
    simp only [zeroPad]
    omega
  | succ fuel ih =>
    by_cases hmsg : msg.length % 64 = 56
    · simp only [zeroPad, hmsg, ne_eq, not_true_eq_false, if_false]
    · simp only [zeroPad, ne_eq, hmsg, not_false_eq_true, if_true]
      apply ih
      simp only [List.length_append, List.length_singleton]
      omega

/-- The zeros end before the fuel does: a padded message is made of whole blocks. -/
theorem padded_length (text : Bytes) : (padded text).length % 64 = 0 := by
  have hpad := zeroPad_length 64 (text ++ [0x80]) (by omega)
  simp only [padded, storeBe64, List.length_append, List.length_cons, List.length_nil] at hpad ⊢
  omega

/-! ## Blocks -/

/-- The first loop on `w`: sixteen words are read from the block. -/
def blockWords (block : Bytes) : List UInt32 :=
  (List.range 16).map fun i => loadBe32 (block.drop (i * 4))

/-- The word that the second loop on `w` computes from those before it. -/
def nextWord (w : List UInt32) : UInt32 :=
  let i := w.length
  let x := w.getD (i - 15) 0
  let y := w.getD (i - 2) 0
  let s0 := rotr x 7 ^^^ rotr x 18 ^^^ (x >>> 3)
  let s1 := rotr y 17 ^^^ rotr y 19 ^^^ (y >>> 10)
  w.getD (i - 16) 0 + s0 + w.getD (i - 7) 0 + s1

def extend : ℕ → List UInt32 → List UInt32
  | 0, w => w
  | count + 1, w => extend count (w ++ [nextWord w])

/-- One round, with its constant and its word. -/
def round (v : Words) (k w : UInt32) : Words :=
  let S1 := rotr v.e 6 ^^^ rotr v.e 11 ^^^ rotr v.e 25
  let ch := (v.e &&& v.f) ^^^ (~~~v.e &&& v.g)
  let t1 := v.hh + S1 + ch + k + w
  let S0 := rotr v.a 2 ^^^ rotr v.a 13 ^^^ rotr v.a 22
  let maj := (v.a &&& v.b) ^^^ (v.a &&& v.c) ^^^ (v.b &&& v.c)
  let t2 := S0 + maj
  ⟨t1 + t2, v.a, v.b, v.c, v.d + t1, v.e, v.f, v.g⟩

def rounds (h : Words) (w : List UInt32) : Words :=
  (roundConstants.zip w).foldl (fun v kw => round v kw.1 kw.2) h

def Words.add (h v : Words) : Words :=
  ⟨h.a + v.a, h.b + v.b, h.c + v.c, h.d + v.d, h.e + v.e, h.f + v.f, h.g + v.g, h.hh + v.hh⟩

def compress (h : Words) (block : Bytes) : Words :=
  h.add (rounds h (extend 48 (blockWords block)))

/-- The loop over the blocks of a message. -/
def hashBlocks : ℕ → Words → Bytes → Words
  | 0, h, _ => h
  | blocks + 1, h, msg => hashBlocks blocks (compress h (msg.take 64)) (msg.drop 64)

def bigEndian (x : UInt32) : Bytes :=
  [(x >>> 24).toUInt8, (x >>> 16).toUInt8, (x >>> 8).toUInt8, x.toUInt8]

def Words.digest (h : Words) : Bytes :=
  bigEndian h.a ++ bigEndian h.b ++ bigEndian h.c ++ bigEndian h.d ++
    bigEndian h.e ++ bigEndian h.f ++ bigEndian h.g ++ bigEndian h.hh

def sha256 (text : Bytes) : Bytes :=
  (hashBlocks ((padded text).length / 64) initial (padded text)).digest

/-! ## Digits -/

/-- `kHex[d]` -/
def hexDigit (d : UInt8) : UInt8 := (ascii "0123456789abcdef").getD d.toNat 0

def hexByte (byte : UInt8) : Bytes := [hexDigit (byte >>> 4), hexDigit (byte &&& 0x0f)]

def sha256Hex (text : Bytes) : Bytes := (sha256 text).flatMap hexByte

theorem sha256_length (text : Bytes) : (sha256 text).length = 32 := rfl

theorem sha256Hex_length (text : Bytes) : (sha256Hex text).length = 64 := by
  have hbytes : ∀ digest : Bytes, (digest.flatMap hexByte).length = 2 * digest.length := by
    intro digest
    induction digest with
    | nil => rfl
    | cons byte rest ih =>
      simp only [List.flatMap_cons, List.length_append, ih, hexByte, List.length_cons,
        List.length_nil]
      omega
  rw [sha256Hex, hbytes, sha256_length]

theorem sha256Hex_ne_nil (text : Bytes) : sha256Hex text ≠ [] := by
  have h := sha256Hex_length text
  intro hnil
  rw [hnil] at h
  cases h

/-- The two digits of a byte are characters of the table. -/
theorem hexByte_mem (byte digit : UInt8) (h : digit ∈ hexByte byte) :
    digit ∈ ascii "0123456789abcdef" := by
  have hall : ∀ b : Fin 256,
      (hexByte (UInt8.ofFin b)).all (ascii "0123456789abcdef").contains = true := by
    decide +kernel
  exact List.contains_iff_mem.mp (List.all_eq_true.mp (hall byte.toFin) digit h)

theorem mem_sha256Hex {text : Bytes} {digit : UInt8} (h : digit ∈ sha256Hex text) :
    digit ∈ ascii "0123456789abcdef" := by
  obtain ⟨byte, _, hdigit⟩ := List.mem_flatMap.mp h
  exact hexByte_mem byte digit hdigit

example : sha256Hex (ascii "abc") =
    ascii "ba7816bf8f01cfea414140de5dae2223b00361a396177a9cb410ff61f20015ad" := by
  decide +kernel

end Bookstore.Sha256
