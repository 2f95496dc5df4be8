import Mathlib.Data.Nat.Find
import Mathlib.Data.Nat.Nth
import Mathlib.Data.Nat.Prime.Defs
import Mathlib.Tactic.Ring

/-!
SHA-256 as FIPS 180-4 defines it, on messages of bits. A word is read from its bits
with the most significant one first; the constants are bits of the square and cube
roots of primes.
-/
namespace Bookstore.Fips180

/-! ## Bits -/

/-- The last `w` binary digits of a number. -/
def bitsOf : ℕ → ℕ → List Bool
  | 0, _ => []
  | w + 1, n => n.testBit w :: bitsOf w n

/-- The number with these binary digits. -/
def ofBits (bits : List Bool) : ℕ := bits.foldl (fun v b => 2 * v + b.toNat) 0

theorem length_bitsOf (w n : ℕ) : (bitsOf w n).length = w := by
  induction w with
  | zero => rfl
  | succ w ih => rw [bitsOf, List.length_cons, ih]

theorem bitsOf_add (u v n : ℕ) : bitsOf (u + v) n = bitsOf u (n / 2 ^ v) ++ bitsOf v n := by
  induction u with
  | zero => rw [Nat.zero_add, bitsOf, List.nil_append]
  | succ u ih =>
    rw [Nat.succ_add, bitsOf, bitsOf, ih, Nat.testBit_div_two_pow, List.cons_append]

theorem bitsOf_mod {w v : ℕ} (h : w ≤ v) (n : ℕ) : bitsOf w (n % 2 ^ v) = bitsOf w n := by
  induction w with
  | zero => rfl
  | succ w ih =>
    have hlt : w < v := h
    rw [bitsOf, bitsOf, ih (Nat.le_of_succ_le h), Nat.testBit_mod_two_pow, decide_eq_true hlt,
      Bool.true_and]

theorem ofBits_append (bits more : List Bool) :
    ofBits (bits ++ more) = ofBits bits * 2 ^ more.length + ofBits more := by
  have hfold : ∀ (more : List Bool) (a : ℕ), more.foldl (fun v b => 2 * v + b.toNat) a =
      a * 2 ^ more.length + ofBits more := by
    intro more
    induction more with
    | nil =>
      intro a
      rw [List.foldl_nil, List.length_nil, Nat.pow_zero, Nat.mul_one]
      rfl
    | cons b more ih =>
      intro a
      have hfirst : ofBits (b :: more) = b.toNat * 2 ^ more.length + ofBits more := by
        rw [← ih, ofBits, List.foldl_cons, Nat.mul_zero, Nat.zero_add]
      rw [List.foldl_cons, ih, hfirst, List.length_cons, Nat.pow_succ]
      ring
  rw [ofBits, List.foldl_append, hfold]
  rfl

theorem ofBits_bitsOf (w n : ℕ) : ofBits (bitsOf w n) = n % 2 ^ w := by
  induction w with
  | zero =>
    rw [Nat.pow_zero, Nat.mod_one]
    rfl
  | succ w ih =>
    have hcons : bitsOf (w + 1) n = [n.testBit w] ++ bitsOf w n := rfl
    have hone : ofBits [n.testBit w] = n / 2 ^ w % 2 := by
      rw [← Nat.toNat_testBit]
      exact Nat.zero_add _
    rw [hcons, ofBits_append, ih, length_bitsOf, hone, Nat.mod_pow_succ]
    ring

/-! ## Functions and constants -/

abbrev Word := BitVec 32

def ROTR (n : ℕ) (x : Word) : Word := (x >>> n) ||| (x <<< (32 - n))

def SHR (n : ℕ) (x : Word) : Word := x >>> n

def Ch (x y z : Word) : Word := (x &&& y) ^^^ (~~~x &&& z)

def Maj (x y z : Word) : Word := (x &&& y) ^^^ (x &&& z) ^^^ (y &&& z)

def bigSigma0 (x : Word) : Word := ROTR 2 x ^^^ ROTR 13 x ^^^ ROTR 22 x

def bigSigma1 (x : Word) : Word := ROTR 6 x ^^^ ROTR 11 x ^^^ ROTR 25 x

def smallSigma0 (x : Word) : Word := ROTR 7 x ^^^ ROTR 18 x ^^^ SHR 3 x

def smallSigma1 (x : Word) : Word := ROTR 17 x ^^^ ROTR 19 x ^^^ SHR 10 x

/-- The first 32 bits of the fractional part of the `k`-th root of a number. -/
def rootBits (k n : ℕ) : Word :=
  BitVec.ofNat 32 (Nat.findGreatest (fun r => r ^ k ≤ n * 2 ^ (32 * k)) (n * 2 ^ (32 * k)))

/-- `K_t`: from the cube roots of the primes. -/
noncomputable def K (t : ℕ) : Word := rootBits 3 (Nat.nth Nat.Prime t)

/-- The eight words of a hash value, and the working variables `a` to `h`. -/
structure Hash where
  a : Word
  b : Word
  c : Word
  d : Word
  e : Word
  f : Word
  g : Word
  h : Word

/-- `H^(0)`: from the square roots of the first eight primes. -/
noncomputable def H0 : Hash where
  a := rootBits 2 (Nat.nth Nat.Prime 0)
  b := rootBits 2 (Nat.nth Nat.Prime 1)
  c := rootBits 2 (Nat.nth Nat.Prime 2)
  d := rootBits 2 (Nat.nth Nat.Prime 3)
  e := rootBits 2 (Nat.nth Nat.Prime 4)
  f := rootBits 2 (Nat.nth Nat.Prime 5)
  g := rootBits 2 (Nat.nth Nat.Prime 6)
  h := rootBits 2 (Nat.nth Nat.Prime 7)

/-! ## Padding and parsing -/

/-- A message is shorter than `2^64` bits. -/
structure Message where
  bits : List Bool
  short : bits.length < 2 ^ 64

theorem exists_zeros (l : ℕ) : ∃ k, (l + 1 + k) % 512 = 448 := ⟨(959 - l % 512) % 512, by omega⟩

/-- The smallest number of zero bits that leaves room for the length. -/
def zeros (l : ℕ) : ℕ := Nat.find (exists_zeros l)

theorem zeros_eq {l k : ℕ} (hk : (l + 1 + k) % 512 = 448) (hlt : k < 512) : zeros l = k := by
  refine (Nat.find_eq_iff (exists_zeros l)).mpr ⟨hk, fun n hn hnk => ?_⟩
  omega

def Message.padded (m : Message) : List Bool :=
  m.bits ++ [true] ++ List.replicate (zeros m.bits.length) false ++ bitsOf 64 m.bits.length

/-- `M_t^(i)`, from block `0` on. -/
def blockWord (padded : List Bool) (i t : ℕ) : Word :=
  BitVec.ofNat 32 (ofBits ((padded.drop (512 * i + 32 * t)).take 32))

/-! ## Hash computation -/

/-- `W_t` -/
def schedule (M : ℕ → Word) (t : ℕ) : Word :=
  if t < 16 then M t
  else smallSigma1 (schedule M (t - 2)) + schedule M (t - 7) +
    smallSigma0 (schedule M (t - 15)) + schedule M (t - 16)
termination_by t
decreasing_by all_goals omega

theorem schedule_of_lt (M : ℕ → Word) {t : ℕ} (h : t < 16) : schedule M t = M t := by
  rw [schedule, if_pos h]

theorem schedule_of_le (M : ℕ → Word) {t : ℕ} (h : 16 ≤ t) : schedule M t =
    smallSigma1 (schedule M (t - 2)) + schedule M (t - 7) +
      smallSigma0 (schedule M (t - 15)) + schedule M (t - 16) := by
  rw [schedule, if_neg (Nat.not_lt.mpr h)]

/-- One of the 64 steps, with its constant and its word. -/
def Hash.step (v : Hash) (k w : Word) : Hash :=
  let T1 := v.h + bigSigma1 v.e + Ch v.e v.f v.g + k + w
  let T2 := bigSigma0 v.a + Maj v.a v.b v.c
  ⟨T1 + T2, v.a, v.b, v.c, v.d + T1, v.e, v.f, v.g⟩

def Hash.add (v H : Hash) : Hash :=
  ⟨v.a + H.a, v.b + H.b, v.c + H.c, v.d + H.d, v.e + H.e, v.f + H.f, v.g + H.g, v.h + H.h⟩

/-- The hash value behind a block, from the one before it. -/
noncomputable def Hash.next (H : Hash) (M : ℕ → Word) : Hash :=
  ((List.range 64).foldl (fun v t => v.step (K t) (schedule M t)) H).add H

/-- `H^(i)` -/
noncomputable def hashValue (padded : List Bool) : ℕ → Hash
  | 0 => H0
  | i + 1 => (hashValue padded i).next (blockWord padded i)

def Hash.bits (H : Hash) : List Bool :=
  [H.a, H.b, H.c, H.d, H.e, H.f, H.g, H.h].flatMap fun x => bitsOf 32 x.toNat

/-- The digest of a message. -/
noncomputable def sha256 (m : Message) : List Bool :=
  (hashValue m.padded (m.padded.length / 512)).bits

/-- Bits in hexadecimal, with lower-case letters. -/
def hexForm : List Bool → List Char
  | p :: q :: r :: s :: rest => Nat.digitChar (ofBits [p, q, r, s]) :: hexForm rest
  | _ => []

/-! ## Roots and primes -/

theorem rootBits_eq {k n r : ℕ} (hk : k ≠ 0) (hlow : r ^ k ≤ n * 2 ^ (32 * k))
    (hhigh : n * 2 ^ (32 * k) < (r + 1) ^ k) : rootBits k n = BitVec.ofNat 32 r := by
  have hroot : Nat.findGreatest (fun r => r ^ k ≤ n * 2 ^ (32 * k)) (n * 2 ^ (32 * k)) = r := by
    refine Nat.findGreatest_eq_iff.mpr ⟨?_, fun _ => hlow, fun s hs _ hle => ?_⟩
    · exact Nat.le_trans (Nat.le_self_pow hk r) hlow
    · have hpow : (r + 1) ^ k ≤ s ^ k := Nat.pow_le_pow_left hs k
      omega
  rw [rootBits, hroot]

/-- Trial division by the numbers below `d`. -/
def primeTest (d n : ℕ) : Bool :=
  decide (2 ≤ n) && (List.range d).all fun m => decide (m < 2) || decide (n ≤ m) || n % m != 0

theorem prime_iff_primeTest {d n : ℕ} (h : n < d * d) : n.Prime ↔ primeTest d n = true := by
  rw [primeTest, Bool.and_eq_true, decide_eq_true_eq, List.all_eq_true]
  constructor
  · intro hn
    obtain ⟨htwo, hdvd⟩ := Nat.prime_def_lt'.mp hn
    refine ⟨htwo, fun m _ => ?_⟩
    by_cases hsmall : m < 2
    · rw [decide_eq_true hsmall, Bool.true_or, Bool.true_or]
    by_cases hlarge : n ≤ m
    · rw [decide_eq_true hlarge, Bool.or_true, Bool.true_or]
    · have hnot := hdvd m (Nat.le_of_not_lt hsmall) (Nat.lt_of_not_le hlarge)
      rw [Nat.dvd_iff_mod_eq_zero] at hnot
      rw [bne_iff_ne.mpr hnot, Bool.or_true]
  · rintro ⟨htwo, hall⟩
    refine Nat.prime_def_le_sqrt.mpr ⟨htwo, fun m hm hsqrt hdvd => ?_⟩
    have hsquare : m * m ≤ n := Nat.le_sqrt.mp hsqrt
    have hmd : m < d := Nat.mul_self_lt_mul_self_iff.mp (Nat.lt_of_le_of_lt hsquare h)
    have hmn : m < n := Nat.lt_of_lt_of_le (Nat.lt_mul_self_iff.mpr hm) hsquare
    have hboth := hall m (List.mem_range.mpr hmd)
    rw [decide_eq_false (Nat.not_lt.mpr hm), decide_eq_false (Nat.not_le.mpr hmn), Bool.false_or,
      Bool.false_or, bne_iff_ne] at hboth
    exact hboth (Nat.mod_eq_zero_of_dvd hdvd)

theorem count_eq_length (p : ℕ → Prop) [DecidablePred p] (n : ℕ) :
    Nat.count p n = ((List.range n).filter p).length := by
  induction n with
  | zero => rfl
  | succ n ih =>
    rw [Nat.count_succ, ih, List.range_succ, List.filter_append, List.length_append]
    by_cases hn : p n
    · rw [if_pos hn, List.filter_singleton, decide_eq_true hn]
      rfl
    · rw [if_neg hn, List.filter_singleton, decide_eq_false hn]
      rfl

/-- A list of all the numbers of a kind below a bound counts them from the first one on. -/
theorem nth_of_filter {p : ℕ → Prop} [DecidablePred p] {n t x : ℕ}
    (h : ((List.range n).filter p)[t]? = some x) : Nat.nth p t = x := by
  induction n with
  | zero => cases h
  | succ n ih =>
    rw [List.range_succ, List.filter_append] at h
    by_cases ht : t < ((List.range n).filter p).length
    · rw [List.getElem?_append_left ht] at h
      exact ih h
    · rw [List.getElem?_append_right (Nat.le_of_not_lt ht), List.filter_singleton] at h
      by_cases hn : p n
      · rw [decide_eq_true hn, cond_true, List.getElem?_singleton] at h
        split at h
        · next hzero =>
          obtain rfl := Option.some.inj h
          have hlast : t = Nat.count p n := by
            rw [count_eq_length]
            omega
          rw [hlast, Nat.nth_count hn]
        · cases h
      · rw [decide_eq_false hn] at h
        cases h

end Bookstore.Fips180
