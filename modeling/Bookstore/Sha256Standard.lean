import Bookstore.Fips180
import Bookstore.Sha256

/-!
`sha256` computes the digest of FIPS 180-4, and `sha256_hex` prints it.
-/
namespace Bookstore.Sha256Standard

open HttpTypes Sha256 Fips180

/-! ## Bytes as bits -/

def byteBits (b : UInt8) : List Bool := bitsOf 8 b.toNat

/-- A text as a message of bits. -/
def textBits (text : Bytes) : List Bool := text.flatMap byteBits

theorem textBits_append (text more : Bytes) :
    textBits (text ++ more) = textBits text ++ textBits more := List.flatMap_append

theorem length_textBits (text : Bytes) : (textBits text).length = 8 * text.length := by
  induction text with
  | nil => rfl
  | cons b text ih =>
    rw [← List.singleton_append, textBits_append, List.length_append, ih, List.length_append]
    have hbyte : (textBits [b]).length = 8 := rfl
    rw [hbyte, List.length_singleton]
    omega

theorem drop_textBits (text : Bytes) (i : ℕ) :
    (textBits text).drop (8 * i) = textBits (text.drop i) := by
  by_cases hi : i ≤ text.length
  · have hlength : (textBits (text.take i)).length = 8 * i := by
      rw [length_textBits, List.length_take_of_le hi]
    have hsplit := textBits_append (text.take i) (text.drop i)
    rw [List.take_append_drop] at hsplit
    rw [hsplit, ← hlength, List.drop_left]
  · have hlong : (textBits text).length ≤ 8 * i := by
      rw [length_textBits]
      omega
    rw [List.drop_of_length_le hlong, List.drop_of_length_le (Nat.le_of_not_le hi)]
    rfl

theorem byteBits_eq {b : UInt8} {n : ℕ} (h : b.toNat = n % 2 ^ 8) : byteBits b = bitsOf 8 n := by
  rw [byteBits, h]
  exact bitsOf_mod (Nat.le_refl 8) n

theorem byteBits_shiftRight (x : UInt32) {n : UInt32} (h : n.toNat < 32) :
    byteBits (x >>> n).toUInt8 = bitsOf 8 (x.toNat / 2 ^ n.toNat) := by
  apply byteBits_eq
  rw [UInt32.toNat_toUInt8, UInt32.toNat_shiftRight, Nat.shiftRight_eq_div_pow,
    Nat.mod_eq_of_lt h]

theorem byteBits_shiftRight64 (x : UInt64) {n : UInt64} (h : n.toNat < 64) :
    byteBits (x >>> n).toUInt8 = bitsOf 8 (x.toNat / 2 ^ n.toNat) := by
  apply byteBits_eq
  rw [UInt64.toNat_toUInt8, UInt64.toNat_shiftRight, Nat.shiftRight_eq_div_pow,
    Nat.mod_eq_of_lt h]

/-- A word is stored with its most significant byte first. -/
theorem textBits_bigEndian (x : UInt32) : textBits (bigEndian x) = bitsOf 32 x.toNat := by
  have hlow : byteBits x.toUInt8 = bitsOf 8 x.toNat := byteBits_eq x.toNat_toUInt8
  have hbytes : textBits (bigEndian x) = byteBits (x >>> 24).toUInt8 ++
      (byteBits (x >>> 16).toUInt8 ++ (byteBits (x >>> 8).toUInt8 ++ byteBits x.toUInt8)) := rfl
  have hwhole : bitsOf 32 x.toNat = bitsOf 8 (x.toNat / 2 ^ 24) ++ (bitsOf 8 (x.toNat / 2 ^ 16) ++
      (bitsOf 8 (x.toNat / 2 ^ 8) ++ bitsOf 8 x.toNat)) := by
    rw [← bitsOf_add 8 8, ← bitsOf_add 8 16, ← bitsOf_add 8 24]
  rw [hbytes, hwhole, byteBits_shiftRight x (by decide), byteBits_shiftRight x (by decide),
    byteBits_shiftRight x (by decide), hlow]
  rfl

theorem textBits_storeBe64 (v : UInt64) : textBits (storeBe64 v) = bitsOf 64 v.toNat := by
  have hlow : byteBits v.toUInt8 = bitsOf 8 v.toNat := byteBits_eq v.toNat_toUInt8
  have hbytes : textBits (storeBe64 v) = byteBits (v >>> 56).toUInt8 ++
      (byteBits (v >>> 48).toUInt8 ++ (byteBits (v >>> 40).toUInt8 ++
      (byteBits (v >>> 32).toUInt8 ++ (byteBits (v >>> 24).toUInt8 ++
      (byteBits (v >>> 16).toUInt8 ++ (byteBits (v >>> 8).toUInt8 ++ byteBits v.toUInt8)))))) := rfl
  have hwhole : bitsOf 64 v.toNat = bitsOf 8 (v.toNat / 2 ^ 56) ++ (bitsOf 8 (v.toNat / 2 ^ 48) ++
      (bitsOf 8 (v.toNat / 2 ^ 40) ++ (bitsOf 8 (v.toNat / 2 ^ 32) ++
      (bitsOf 8 (v.toNat / 2 ^ 24) ++ (bitsOf 8 (v.toNat / 2 ^ 16) ++
      (bitsOf 8 (v.toNat / 2 ^ 8) ++ bitsOf 8 v.toNat)))))) := by
    rw [← bitsOf_add 8 8, ← bitsOf_add 8 16, ← bitsOf_add 8 24, ← bitsOf_add 8 32,
      ← bitsOf_add 8 40, ← bitsOf_add 8 48, ← bitsOf_add 8 56]
  rw [hbytes, hwhole, byteBits_shiftRight64 v (by decide), byteBits_shiftRight64 v (by decide),
    byteBits_shiftRight64 v (by decide), byteBits_shiftRight64 v (by decide),
    byteBits_shiftRight64 v (by decide), byteBits_shiftRight64 v (by decide),
    byteBits_shiftRight64 v (by decide), hlow]
  rfl

/-! ## Padding -/

theorem zeroPad_eq {fuel : ℕ} {msg : Bytes} {j : ℕ} (hj : (msg.length + j) % 64 = 56)
    (hlt : j < 64) (hfuel : j ≤ fuel) : zeroPad fuel msg = msg ++ List.replicate j 0 := by
  induction fuel generalizing msg j with
  | zero =>
    obtain rfl : j = 0 := Nat.le_zero.mp hfuel
    exact (List.append_nil msg).symm
  | succ fuel ih =>
    rw [zeroPad]
    cases j with
    | zero =>
      have hend : msg.length % 64 = 56 := hj
      rw [if_neg (not_not.mpr hend)]
      exact (List.append_nil msg).symm
    | succ j =>
      have hnot : msg.length % 64 ≠ 56 := by omega
      have hnext : ((msg ++ [0]).length + j) % 64 = 56 := by
        rw [List.length_append, List.length_singleton, Nat.add_assoc, Nat.add_comm 1 j]
        exact hj
      rw [if_pos hnot, ih hnext (by omega) (by omega), List.append_assoc]
      rfl

theorem textBits_replicate (j : ℕ) :
    textBits (List.replicate j 0) = List.replicate (8 * j) false := by
  induction j with
  | zero => rfl
  | succ j ih =>
    rw [List.replicate_succ, ← List.singleton_append, textBits_append, ih, Nat.mul_succ,
      Nat.add_comm, List.replicate_add]
    rfl

/-- A text with a length that the counter of bits can hold, as a message. -/
def message (text : Bytes) (h : text.length < 2 ^ 61) : Message where
  bits := textBits text
  short := by
    rw [length_textBits]
    omega

theorem padded_bits {text : Bytes} (h : text.length < 2 ^ 61) :
    (message text h).padded = textBits (Sha256.padded text) := by
  obtain ⟨j, hj, hlt⟩ : ∃ j, ((text ++ [0x80]).length + j) % 64 = 56 ∧ j < 64 := by
    refine ⟨(119 - (text ++ [0x80]).length % 64 + 1) % 64, ?_, Nat.mod_lt _ (by decide)⟩
    omega
  have hzeros : zeros (textBits text).length = 7 + 8 * j := by
    rw [List.length_append, List.length_singleton] at hj
    refine zeros_eq ?_ (by omega)
    rw [length_textBits]
    omega
  have hcount : (UInt64.ofNat (text.length * 8)).toNat = (textBits text).length := by
    rw [length_textBits, UInt64.toNat_ofNat', Nat.mul_comm]
    exact Nat.mod_eq_of_lt (by omega)
  have hmark : textBits [0x80] = [true] ++ List.replicate 7 false := by decide
  rw [Message.padded, Sha256.padded, zeroPad_eq hj hlt (Nat.le_of_lt hlt), textBits_append,
    textBits_append, textBits_append, textBits_replicate, textBits_storeBe64, hcount, hmark]
  change textBits text ++ [true] ++ List.replicate (zeros (textBits text).length) false ++ _ = _
  rw [hzeros, List.replicate_add]
  simp only [List.append_assoc]
  rfl

/-! ## Words -/

theorem rotr_toBitVec (x : UInt32) {n : UInt32} (h : 0 < n.toNat ∧ n.toNat < 32) :
    (rotr x n).toBitVec = ROTR n.toNat x.toBitVec := by
  have hsub : (32 - n).toNat = 32 - n.toNat :=
    UInt32.toNat_sub_of_le 32 n (UInt32.le_iff_toNat_le.mpr (Nat.le_of_lt h.2))
  have hright : (n.toBitVec % 32).toNat = n.toNat := Nat.mod_eq_of_lt h.2
  have hleft : ((32 - n).toBitVec % 32).toNat = 32 - n.toNat := by
    have hlt : (32 - n).toNat < 32 := by omega
    exact (Nat.mod_eq_of_lt hlt).trans hsub
  rw [rotr, ROTR, UInt32.toBitVec_or, UInt32.toBitVec_shiftRight, UInt32.toBitVec_shiftLeft,
    BitVec.ushiftRight_eq', BitVec.shiftLeft_eq', hright, hleft]

theorem toNat_loadBe32 (b0 b1 b2 b3 : UInt8) (rest : Bytes) :
    (loadBe32 (b0 :: b1 :: b2 :: b3 :: rest)).toNat =
      ((b0.toNat * 2 ^ 8 + b1.toNat) * 2 ^ 8 + b2.toNat) * 2 ^ 8 + b3.toNat := by
  have h0 := b0.toNat_lt
  have h1 := b1.toNat_lt
  have h2 := b2.toNat_lt
  have h3 := b3.toNat_lt
  have hshift (b : UInt8) {n : UInt32} (hn : n.toNat ≤ 24) :
      (b.toUInt32 <<< n).toNat = 2 ^ n.toNat * b.toNat := by
    have hb := b.toNat_lt
    have hpow : 2 ^ n.toNat ≤ 2 ^ 24 := Nat.pow_le_pow_right (by decide) hn
    have hlt : b.toNat * 2 ^ n.toNat < 2 ^ 32 :=
      Nat.lt_of_lt_of_le (Nat.mul_lt_mul_of_lt_of_le hb hpow (by decide)) (by decide)
    rw [UInt32.toNat_shiftLeft, Nat.mod_eq_of_lt (show n.toNat < 32 by omega), Nat.shiftLeft_eq,
      UInt8.toNat_toUInt32, Nat.mod_eq_of_lt hlt, Nat.mul_comm]
  have hload : (loadBe32 (b0 :: b1 :: b2 :: b3 :: rest)).toNat =
      2 ^ 24 * b0.toNat ||| 2 ^ 16 * b1.toNat ||| 2 ^ 8 * b2.toNat ||| b3.toNat := by
    show (b0.toUInt32 <<< 24 ||| b1.toUInt32 <<< 16 ||| b2.toUInt32 <<< 8 |||
      b3.toUInt32).toNat = _
    rw [UInt32.toNat_or, UInt32.toNat_or, UInt32.toNat_or, hshift b0 (by decide),
      hshift b1 (by decide), hshift b2 (by decide), UInt8.toNat_toUInt32]
    rfl
  have hfirst : 2 ^ 24 * b0.toNat ||| 2 ^ 16 * b1.toNat =
      2 ^ 16 * (2 ^ 8 * b0.toNat + b1.toNat) := by
    rw [← Nat.two_pow_add_eq_or_of_lt (show 2 ^ 16 * b1.toNat < 2 ^ 24 by omega)]
    omega
  have hsecond : 2 ^ 16 * (2 ^ 8 * b0.toNat + b1.toNat) ||| 2 ^ 8 * b2.toNat =
      2 ^ 8 * (2 ^ 8 * (2 ^ 8 * b0.toNat + b1.toNat) + b2.toNat) := by
    rw [← Nat.two_pow_add_eq_or_of_lt (show 2 ^ 8 * b2.toNat < 2 ^ 16 by omega)]
    omega
  rw [hload, hfirst, hsecond, ← Nat.two_pow_add_eq_or_of_lt (show b3.toNat < 2 ^ 8 by omega)]
  omega

theorem exists_four {l : Bytes} (h : 4 ≤ l.length) :
    ∃ b0 b1 b2 b3 rest, l = b0 :: b1 :: b2 :: b3 :: rest := by
  match l with
  | b0 :: b1 :: b2 :: b3 :: rest => exact ⟨b0, b1, b2, b3, rest, rfl⟩
  | [_, _, _] | [_, _] | [_] | [] =>
    simp only [List.length_cons, List.length_nil] at h
    omega

/-- A word of a block. -/
theorem blockWord_textBits (msg : Bytes) {i t : ℕ} (ht : t < 16)
    (hlength : 64 * i + 64 ≤ msg.length) : blockWord (textBits msg) i t =
      (loadBe32 (((msg.drop (64 * i)).take 64).drop (t * 4))).toBitVec := by
  obtain ⟨b0, b1, b2, b3, rest, hrest⟩ := @exists_four (msg.drop (64 * i + 4 * t)) (by
    rw [List.length_drop]
    omega)
  have hoffset : 512 * i + 32 * t = 8 * (64 * i + 4 * t) := by omega
  have hword : ofBits (((textBits msg).drop (512 * i + 32 * t)).take 32) =
      ((b0.toNat * 2 ^ 8 + b1.toNat) * 2 ^ 8 + b2.toNat) * 2 ^ 8 + b3.toNat := by
    have hsplit : textBits (b0 :: b1 :: b2 :: b3 :: rest) =
        byteBits b0 ++ byteBits b1 ++ byteBits b2 ++ byteBits b3 ++ textBits rest := rfl
    have hmod (b : UInt8) : b.toNat % 2 ^ 8 = b.toNat := Nat.mod_eq_of_lt b.toNat_lt
    have hlen : (byteBits b0 ++ byteBits b1 ++ byteBits b2 ++ byteBits b3).length = 32 := rfl
    rw [hoffset, drop_textBits, hrest, hsplit, List.take_left' hlen, ofBits_append, ofBits_append,
      ofBits_append]
    simp only [byteBits, ofBits_bitsOf, length_bitsOf, hmod]
  have hblock : ((msg.drop (64 * i)).take 64).drop (t * 4) =
      b0 :: b1 :: b2 :: b3 :: rest.take (64 - t * 4 - 4) := by
    obtain ⟨n, hn⟩ : ∃ n, 64 - t * 4 = n + 4 := ⟨60 - t * 4, by omega⟩
    rw [List.drop_take, List.drop_drop, Nat.mul_comm t 4, hrest, Nat.mul_comm 4 t, hn]
    rfl
  apply BitVec.eq_of_toNat_eq
  rw [blockWord, hword, hblock, BitVec.toNat_ofNat, UInt32.toNat_toBitVec, toNat_loadBe32]
  have h0 := b0.toNat_lt
  have h1 := b1.toNat_lt
  have h2 := b2.toNat_lt
  have h3 := b3.toNat_lt
  omega

/-! ## Schedule and rounds -/

theorem smallSigma0_toBitVec (x : UInt32) :
    (rotr x 7 ^^^ rotr x 18 ^^^ (x >>> 3)).toBitVec = smallSigma0 x.toBitVec := by
  rw [UInt32.toBitVec_xor, UInt32.toBitVec_xor, rotr_toBitVec x (by decide),
    rotr_toBitVec x (by decide)]
  rfl

theorem smallSigma1_toBitVec (x : UInt32) :
    (rotr x 17 ^^^ rotr x 19 ^^^ (x >>> 10)).toBitVec = smallSigma1 x.toBitVec := by
  rw [UInt32.toBitVec_xor, UInt32.toBitVec_xor, rotr_toBitVec x (by decide),
    rotr_toBitVec x (by decide)]
  rfl

/-- The words that the loops write, as far as they have come. -/
def scheduleWords (M : ℕ → Word) (count : ℕ) : List UInt32 :=
  (List.range count).map fun t => UInt32.ofBitVec (schedule M t)

theorem getD_scheduleWords (M : ℕ → Word) {count t : ℕ} (h : t < count) :
    ((scheduleWords M count).getD t 0).toBitVec = schedule M t := by
  rw [scheduleWords, List.getD_eq_getElem?_getD, List.getElem?_map, List.getElem?_range h]
  rfl

theorem nextWord_scheduleWords (M : ℕ → Word) {count : ℕ} (h : 16 ≤ count) :
    nextWord (scheduleWords M count) = UInt32.ofBitVec (schedule M count) := by
  have hlength : (scheduleWords M count).length = count := by
    rw [scheduleWords, List.length_map, List.length_range]
  apply UInt32.toBitVec_inj.mp
  rw [nextWord, hlength]
  simp only [UInt32.toBitVec_add, smallSigma0_toBitVec, smallSigma1_toBitVec,
    getD_scheduleWords M (show count - 16 < count by omega),
    getD_scheduleWords M (show count - 15 < count by omega),
    getD_scheduleWords M (show count - 7 < count by omega),
    getD_scheduleWords M (show count - 2 < count by omega), schedule_of_le M h]
  ac_rfl

theorem extend_scheduleWords (M : ℕ → Word) (more : ℕ) {count : ℕ} (h : 16 ≤ count) :
    extend more (scheduleWords M count) = scheduleWords M (count + more) := by
  induction more generalizing count with
  | zero => rfl
  | succ more ih =>
    have hsnoc : scheduleWords M count ++ [UInt32.ofBitVec (schedule M count)] =
        scheduleWords M (count + 1) := by
      rw [scheduleWords, scheduleWords, List.range_succ, List.map_append, List.map_singleton]
    rw [extend, nextWord_scheduleWords M h, hsnoc, ih (by omega), Nat.add_assoc,
      Nat.add_comm 1 more]

/-- The words of the server as a hash value of the standard. -/
def hashOf (v : Words) : Hash :=
  ⟨v.a.toBitVec, v.b.toBitVec, v.c.toBitVec, v.d.toBitVec, v.e.toBitVec, v.f.toBitVec,
    v.g.toBitVec, v.hh.toBitVec⟩

theorem hashOf_round (v : Words) (k w : UInt32) :
    hashOf (Sha256.round v k w) = (hashOf v).step k.toBitVec w.toBitVec := by
  have hsmall (n : UInt32) (h : 0 < n.toNat ∧ n.toNat < 32) (x : UInt32) := rotr_toBitVec x h
  simp only [hashOf, Sha256.round, Hash.step, bigSigma0, bigSigma1, Ch, Maj, UInt32.toBitVec_add,
    UInt32.toBitVec_xor, UInt32.toBitVec_and, UInt32.toBitVec_not,
    hsmall 2 (by decide), hsmall 6 (by decide), hsmall 11 (by decide), hsmall 13 (by decide),
    hsmall 22 (by decide), hsmall 25 (by decide)]
  rfl

theorem hashOf_add (h v : Words) : hashOf (h.add v) = (hashOf v).add (hashOf h) := by
  simp only [hashOf, Words.add, Hash.add, UInt32.toBitVec_add, BitVec.add_comm]

/-! ## Constants -/

/-- The first 64 primes. -/
def smallPrimes : List ℕ :=
  [2, 3, 5, 7, 11, 13, 17, 19, 23, 29, 31, 37, 41, 43, 47, 53, 59, 61, 67, 71, 73, 79, 83, 89,
    97, 101, 103, 107, 109, 113, 127, 131, 137, 139, 149, 151, 157, 163, 167, 173, 179, 181,
    191, 193, 197, 199, 211, 223, 227, 229, 233, 239, 241, 251, 257, 263, 269, 271, 277, 281,
    283, 293, 307, 311]

theorem smallPrimes_eq : (List.range 312).filter (primeTest 18) = smallPrimes := by decide

/-- The fractional part of the `k`-th root of a number starts with these bits. -/
def startsRoot (k q : ℕ) (c : UInt32) : Bool :=
  (List.range 7).any fun s => decide ((s * 2 ^ 32 + c.toNat) ^ k ≤ q * 2 ^ (32 * k)) &&
    decide (q * 2 ^ (32 * k) < (s * 2 ^ 32 + c.toNat + 1) ^ k)

theorem nth_prime {t q : ℕ} (h : smallPrimes[t]? = some q) : Nat.nth Nat.Prime t = q := by
  refine nth_of_filter (p := Nat.Prime) (n := 312) ?_
  rw [← h, ← smallPrimes_eq]
  refine congrArg (·[t]?) (List.filter_congr fun n hn => ?_)
  have hlt : n < 312 := List.mem_range.mp hn
  exact Bool.eq_iff_iff.mpr (decide_eq_true_iff.trans (prime_iff_primeTest (by omega)))

theorem rootBits_of_startsRoot {k q : ℕ} {c : UInt32} (hk : k ≠ 0)
    (h : startsRoot k q c = true) : rootBits k q = c.toBitVec := by
  obtain ⟨s, -, hs⟩ := List.any_eq_true.mp h
  obtain ⟨hlow, hhigh⟩ := Bool.and_eq_true_iff.mp hs
  rw [rootBits_eq hk (of_decide_eq_true hlow) (of_decide_eq_true hhigh)]
  apply BitVec.eq_of_toNat_eq
  rw [BitVec.toNat_ofNat, UInt32.toNat_toBitVec, Nat.add_comm, Nat.add_mul_mod_self_right]
  exact Nat.mod_eq_of_lt c.toNat_lt

theorem table_startsRoot :
    (smallPrimes.zip roundConstants).all (fun qc => startsRoot 3 qc.1 qc.2) = true := by
  decide

theorem K_eq {t : ℕ} {c : UInt32} (hc : roundConstants[t]? = some c) : K t = c.toBitVec := by
  obtain ⟨ht, -⟩ := List.getElem?_eq_some_iff.mp hc
  have hlength : roundConstants.length = smallPrimes.length := rfl
  rw [hlength] at ht
  have hq := List.getElem?_eq_getElem ht
  have hzip := List.getElem?_zip_eq_some (z := (smallPrimes[t], c)) |>.mpr ⟨hq, hc⟩
  have hroot := List.all_eq_true.mp table_startsRoot _ (List.mem_of_getElem? hzip)
  rw [K, nth_prime hq]
  exact rootBits_of_startsRoot (Nat.succ_ne_zero 2) hroot

/-- The table of the server is that of the standard. -/
theorem roundConstants_eq :
    roundConstants = (List.range 64).map fun t => UInt32.ofBitVec (K t) := by
  have hlength : roundConstants.length = 64 := rfl
  refine List.ext_getElem (by rw [hlength, List.length_map, List.length_range]) fun t ht ht' => ?_
  rw [List.getElem_map, List.getElem_range, K_eq (List.getElem?_eq_getElem ht)]

theorem hashOf_initial : hashOf initial = H0 := by
  have hword {t q : ℕ} (c : UInt32) (hq : smallPrimes[t]? = some q)
      (hc : startsRoot 2 q c = true) : c.toBitVec = rootBits 2 (Nat.nth Nat.Prime t) := by
    rw [nth_prime hq, rootBits_of_startsRoot (by decide) hc]
  rw [H0, ← hword 0x6a09e667 rfl (by decide),
    ← hword 0xbb67ae85 rfl (by decide),
    ← hword 0x3c6ef372 rfl (by decide),
    ← hword 0xa54ff53a rfl (by decide),
    ← hword 0x510e527f rfl (by decide),
    ← hword 0x9b05688c rfl (by decide),
    ← hword 0x1f83d9ab rfl (by decide),
    ← hword 0x5be0cd19 rfl (by decide)]
  rfl

/-! ## Blocks -/

theorem hashOf_rounds (h : Words) (M : ℕ → Word) :
    hashOf (rounds h (scheduleWords M 64)) =
      (List.range 64).foldl (fun v t => v.step (K t) (schedule M t)) (hashOf h) := by
  rw [rounds, roundConstants_eq, scheduleWords, List.zip_map', List.foldl_map]
  refine (List.foldl_hom hashOf fun v t => ?_).symm
  rw [hashOf_round]

theorem hashOf_compress {h : Words} {block : Bytes} {M : ℕ → Word}
    (hblock : blockWords block = scheduleWords M 16) :
    hashOf (compress h block) = (hashOf h).next M := by
  rw [compress, hblock, extend_scheduleWords M 48 (Nat.le_refl 16), hashOf_add, hashOf_rounds,
    Hash.next]

theorem blockWords_eq {msg : Bytes} {i : ℕ} (hlength : 64 * i + 64 ≤ msg.length) :
    blockWords ((msg.drop (64 * i)).take 64) =
      scheduleWords (blockWord (textBits msg) i) 16 := by
  refine List.map_congr_left fun t ht => ?_
  have ht' : t < 16 := List.mem_range.mp ht
  rw [schedule_of_lt _ ht', blockWord_textBits msg ht' hlength]

/-- The loop over the blocks, with the last block taken off. -/
theorem hashBlocks_succ (blocks : ℕ) (h : Words) (msg : Bytes) :
    hashBlocks (blocks + 1) h msg =
      compress (hashBlocks blocks h msg) ((msg.drop (64 * blocks)).take 64) := by
  induction blocks generalizing h msg with
  | zero => rfl
  | succ blocks ih =>
    rw [hashBlocks, ih, hashBlocks, List.drop_drop]
    congr 3
    omega

/-- After any number of whole blocks, the words are the hash value of the standard. -/
theorem hashOf_hashBlocks (msg : Bytes) {blocks : ℕ} (h : 64 * blocks ≤ msg.length) :
    hashOf (hashBlocks blocks initial msg) = hashValue (textBits msg) blocks := by
  induction blocks with
  | zero => exact hashOf_initial
  | succ blocks ih =>
    rw [hashBlocks_succ, hashOf_compress (blockWords_eq (by omega)), ih (by omega), hashValue]

theorem textBits_digest (h : Words) : textBits h.digest = (hashOf h).bits := by
  simp only [Words.digest, textBits_append, textBits_bigEndian, Hash.bits, List.flatMap_cons,
    List.flatMap_nil, List.append_nil, List.append_assoc]
  rfl

/-! ## The digest and its digits -/

theorem textBits_sha256 {text : Bytes} (h : text.length < 2 ^ 61) :
    textBits (Sha256.sha256 text) = Fips180.sha256 (message text h) := by
  have hblocks : (message text h).padded.length / 512 = (Sha256.padded text).length / 64 := by
    rw [padded_bits h, length_textBits]
    omega
  rw [Sha256.sha256, Fips180.sha256, hblocks, padded_bits h, textBits_digest,
    hashOf_hashBlocks _ (Nat.mul_div_le _ _)]

theorem hexByte_hexForm (b : UInt8) :
    hexByte b = (hexForm (byteBits b)).map fun c => UInt8.ofNat c.toNat := by
  have hall : ∀ n : Fin 256, hexByte (UInt8.ofFin n) =
      (hexForm (byteBits (UInt8.ofFin n))).map fun c => UInt8.ofNat c.toNat := by
    decide +kernel
  exact hall b.toFin

theorem hexForm_textBits (digest : Bytes) :
    digest.flatMap hexByte = (hexForm (textBits digest)).map fun c => UInt8.ofNat c.toNat := by
  induction digest with
  | nil => rfl
  | cons b digest ih =>
    have hcons : hexForm (textBits (b :: digest)) =
        hexForm (byteBits b) ++ hexForm (textBits digest) := rfl
    rw [List.flatMap_cons, ih, hexByte_hexForm, hcons, List.map_append]

/-- `sha256` is SHA-256, and `sha256_hex` its hexadecimal form. -/
theorem sha256_standard {text : Bytes} (h : text.length < 2 ^ 61) :
    textBits (Sha256.sha256 text) = Fips180.sha256 (message text h) ∧
      sha256Hex text =
        (hexForm (Fips180.sha256 (message text h))).map fun c => UInt8.ofNat c.toNat := by
  refine ⟨textBits_sha256 h, ?_⟩
  rw [sha256Hex, hexForm_textBits, textBits_sha256 h]

theorem short_text : (ascii "alice123").length < 2 ^ 61 := by decide

/-- The digest of a password. -/
theorem password_digest :
    textBits (Sha256.sha256 (ascii "alice123")) = Fips180.sha256 (message _ short_text) ∧
      sha256Hex (ascii "alice123") = (hexForm (Fips180.sha256 (message _ short_text))).map
        fun c => UInt8.ofNat c.toNat :=
  sha256_standard short_text

end Bookstore.Sha256Standard
