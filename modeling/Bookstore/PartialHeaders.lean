import Bookstore.RequestLines
import Mathlib.Data.List.Induction

/-!
What a header line that has been received in part can still become. Its content
length is a number that grows with every digit, so of all ways to end the line
two matter: to end it here, or to make its content length zero.
-/
namespace Bookstore.PartialHeaders

open HttpTypes RequestParser RequestParser.HttpConn LineReading RequestLines

/-! ## Numbers -/

theorem decimalValue_concat (digits : Bytes) (c : UInt8) :
    decimalValue (digits ++ [c]) = 10 * decimalValue digits + (c.toNat - 48 : ℕ) := by
  rw [decimalValue, List.foldl_append]
  rfl

theorem decimalValue_nonneg (digits : Bytes) : 0 ≤ decimalValue digits := by
  induction digits using List.reverseRecOn with
  | nil => exact Int.le_refl 0
  | append_singleton digits c ih =>
    rw [decimalValue_concat]
    omega

theorem decimalValue_grows (digits more : Bytes) :
    decimalValue digits ≤ decimalValue (digits ++ more) := by
  induction more using List.reverseRecOn with
  | nil => exact Int.le_of_eq (congrArg decimalValue (List.append_nil digits).symm)
  | append_singleton more c ih =>
    have hpos := decimalValue_nonneg (digits ++ more)
    rw [← List.append_assoc, decimalValue_concat]
    omega

/-- A sign in front of the digits is taken off. -/
def unsigned (s : Bytes) : Bytes :=
  if s.head? == some 45 || s.head? == some 43 then s.tail else s

theorem strtol_eq (s : Bytes) : strtol s =
    if (unsigned (s.dropWhile isSpace)).takeWhile isDigit = [] then none
    else some (if (s.dropWhile isSpace).head? == some 45
      then -decimalValue ((unsigned (s.dropWhile isSpace)).takeWhile isDigit)
      else decimalValue ((unsigned (s.dropWhile isSpace)).takeWhile isDigit)) := rfl

theorem head?_append_ne {s : Bytes} (hs : s ≠ []) (more : Bytes) : (s ++ more).head? = s.head? := by
  obtain ⟨c, s, rfl⟩ := List.exists_cons_of_ne_nil hs
  rfl

theorem unsigned_append {s : Bytes} (hs : s ≠ []) (more : Bytes) :
    unsigned (s ++ more) = unsigned s ++ more := by
  unfold unsigned
  rw [head?_append_ne hs]
  split
  · exact List.tail_append_of_ne_nil hs
  · rfl

theorem dropWhile_append_ne {s : Bytes} (hs : s.dropWhile isSpace ≠ []) (more : Bytes) :
    (s ++ more).dropWhile isSpace = s.dropWhile isSpace ++ more := by
  rw [List.dropWhile_append, if_neg]
  rwa [List.isEmpty_iff]

theorem dropWhile_append_nil {s : Bytes} (hs : s.dropWhile isSpace = []) (more : Bytes) :
    (s ++ more).dropWhile isSpace = more.dropWhile isSpace := by
  rw [List.dropWhile_append, hs]
  rfl

theorem strtol_blank {s : Bytes} (hs : s.dropWhile isSpace = []) : strtol s = none := by
  rw [strtol_eq, hs]
  rfl

/-- With more behind it, a number keeps its sign and does not get smaller. -/
theorem strtol_grows {s more : Bytes} {a b : ℤ} (ha : strtol s = some a)
    (hb : strtol (s ++ more) = some b) : 0 ≤ a ∧ a ≤ b ∨ b ≤ a ∧ a ≤ 0 := by
  have hs : s.dropWhile isSpace ≠ [] := by
    intro hs
    rw [strtol_blank hs] at ha
    cases ha
  have hnonneg := decimalValue_nonneg ((unsigned (s.dropWhile isSpace)).takeWhile isDigit)
  have hgrows : decimalValue ((unsigned (s.dropWhile isSpace)).takeWhile isDigit) ≤
      decimalValue ((unsigned (s.dropWhile isSpace) ++ more).takeWhile isDigit) := by
    rw [List.takeWhile_append]
    split
    · rename_i hall
      rw [List.takeWhile_prefix _ |>.eq_of_length hall]
      exact decimalValue_grows _ _
    · exact Int.le_refl _
  rw [strtol_eq] at ha hb
  rw [dropWhile_append_ne hs, unsigned_append hs, head?_append_ne hs] at hb
  split at ha
  · cases ha
  · split at hb
    · cases hb
    · cases ha
      cases hb
      split <;> omega

/-- What is not a number and becomes one ends before its digits. -/
theorem strtol_starts {s more : Bytes} {b : ℤ} (hs : strtol s = none)
    (hb : strtol (s ++ more) = some b) : more ≠ [] ∧ strtol (s ++ [48]) = some 0 := by
  have hmore : more ≠ [] := by
    intro hmore
    rw [hmore, List.append_nil, hs] at hb
    cases hb
  refine ⟨hmore, ?_⟩
  by_cases hblank : s.dropWhile isSpace = []
  · rw [strtol_eq, dropWhile_append_nil hblank]
    rfl
  · rw [strtol_eq] at hs hb
    have hnone : (unsigned (s.dropWhile isSpace)).takeWhile isDigit = [] := by
      split at hs
      · assumption
      · cases hs
    rw [dropWhile_append_ne hblank, unsigned_append hblank] at hb
    have hend : unsigned (s.dropWhile isSpace) = [] := by
      rw [List.takeWhile_append, hnone] at hb
      by_cases hlength : ([] : Bytes).length = (unsigned (s.dropWhile isSpace)).length
      · exact List.eq_nil_of_length_eq_zero hlength.symm
      · rw [if_neg hlength, if_pos rfl] at hb
        cases hb
    rw [strtol_eq, dropWhile_append_ne hblank, unsigned_append hblank, hend]
    simp [isDigit, decimalValue]

theorem isSpace_of_isBlank {c : UInt8} (h : isBlank c = true) : isSpace c = true := by
  rw [isBlank, Bool.or_eq_true, beq_iff_eq, beq_iff_eq] at h
  rcases h with rfl | rfl
  · rfl
  · rfl

theorem strtol_blanks (s : Bytes) : strtol (s.dropWhile isBlank) = strtol s := by
  have hsame : (s.dropWhile isBlank).dropWhile isSpace = s.dropWhile isSpace := by
    induction s with
    | nil => rfl
    | cons c s ih =>
      by_cases hc : isBlank c = true
      · rw [List.dropWhile_cons_of_pos hc, List.dropWhile_cons_of_pos (isSpace_of_isBlank hc), ih]
      · rw [List.dropWhile_cons_of_neg hc]
  rw [strtol_eq, strtol_eq, hsame]

theorem strtol_nuls (s : Bytes) : strtol (s ++ [0, 0]) = strtol s := by
  by_cases hblank : s.dropWhile isSpace = []
  · rw [strtol_blank hblank, strtol_eq, dropWhile_append_nil hblank]
    rfl
  · have htake : (unsigned (s.dropWhile isSpace) ++ [0, 0]).takeWhile isDigit =
        (unsigned (s.dropWhile isSpace)).takeWhile isDigit := by
      rw [List.takeWhile_append]
      split
      · rename_i hall
        rw [List.takeWhile_prefix _ |>.eq_of_length hall]
        exact List.append_nil _
      · rfl
    rw [strtol_eq, strtol_eq, dropWhile_append_ne hblank, unsigned_append hblank,
      head?_append_ne hblank, htake]

theorem stol_ok_iff {s : Bytes} {n : Int64} : stol s = .ok n ↔ strtol s = some n.toInt := by
  have hlow := n.le_toInt
  have hhigh := n.toInt_lt
  unfold stol
  cases strtol s with
  | none => exact ⟨nofun, nofun⟩
  | some a =>
    rw [Option.some.injEq]
    dsimp only
    split
    · rename_i hrange
      rw [Except.ok.injEq]
      constructor
      · intro h
        rw [← h, Int64.toInt_ofInt_of_le hrange.1 hrange.2]
      · intro h
        rw [h, Int64.ofInt_toInt]
    · rename_i hrange
      refine ⟨nofun, fun h => absurd ?_ hrange⟩
      rw [h]
      exact ⟨hlow, hhigh⟩

/-! ## The name -/

def lengthName : Bytes := ascii "Content-length:"

theorem sameNoCase_longer {text more pattern : Bytes} (h : sameNoCase text pattern = true) :
    sameNoCase (text ++ more) pattern = true := by
  obtain ⟨head, tail, rfl, hsame⟩ := sameNoCase_iff.mp h
  rw [List.append_assoc]
  exact sameNoCase_append hsame _

theorem sameNoCase_length {text pattern : Bytes} (h : sameNoCase text pattern = true) :
    pattern.length ≤ text.length := by
  obtain ⟨head, tail, rfl, hsame⟩ := sameNoCase_iff.mp h
  rw [← hsame.length, List.length_append]
  exact Nat.le_add_right _ _

theorem sameNoCase_shorter {text more pattern : Bytes}
    (h : sameNoCase (text ++ more) pattern = true) (hle : pattern.length ≤ text.length) :
    sameNoCase text pattern = true := by
  obtain ⟨head, tail, hsplit, hsame⟩ := sameNoCase_iff.mp h
  have hlength := hsame.length
  obtain ⟨rest, rfl⟩ := List.prefix_of_prefix_length_le ⟨tail, hsplit.symm⟩
    (List.prefix_append text more) (by omega)
  exact sameNoCase_append hsame rest

/-- The rest of the pattern completes a text that has begun like it. -/
theorem sameNoCase_completed {text more pattern : Bytes}
    (h : sameNoCase (text ++ more) pattern = true) (hle : text.length ≤ pattern.length)
    (tail : Bytes) : sameNoCase (text ++ (pattern.drop text.length ++ tail)) pattern = true := by
  obtain ⟨head, rest, hsplit, hsame⟩ := sameNoCase_iff.mp h
  have hlength := hsame.length
  obtain ⟨middle, rfl⟩ := List.prefix_of_prefix_length_le (List.prefix_append text more)
    ⟨rest, hsplit.symm⟩ (by omega)
  have htext : EqualNoCase text (pattern.take text.length) := by
    have htake := congrArg (List.take text.length) hsame
    rwa [List.map_append, List.take_left' (List.length_map _), ← List.map_take] at htake
  rw [← List.append_assoc]
  refine sameNoCase_append ?_ tail
  rw [EqualNoCase, List.map_append, htext, ← List.map_append, List.take_append_drop]

/-- The NULs behind a line belong to no name. -/
theorem sameNoCase_nuls {line pattern : Bytes} (h : pattern.all (fun p => toLower p ≠ 0) = true) :
    sameNoCase (line ++ [0, 0]) pattern = sameNoCase line pattern := by
  induction pattern generalizing line with
  | nil => simp only [sameNoCase]
  | cons p pattern ih =>
    rw [List.all_cons, Bool.and_eq_true, decide_eq_true_eq] at h
    cases line with
    | nil =>
      have hnul : (toLower 0 == toLower p) = false := beq_eq_false_iff_ne.mpr (Ne.symm h.1)
      show (toLower 0 == toLower p && sameNoCase [0] pattern) = false
      rw [hnul, Bool.false_and]
    | cons c line => rw [List.cons_append, sameNoCase, sameNoCase, ih h.2]

theorem headerVal_lengthName (line : Bytes) : headerVal (line ++ [0, 0]) lengthName =
    if sameNoCase line lengthName = true then (line.drop 15 ++ [0, 0]).dropWhile isBlank
    else [] := by
  unfold headerVal
  rw [sameNoCase_nuls (by decide), List.length_append]
  by_cases hsame : sameNoCase line lengthName = true
  · have hlong : 15 ≤ line.length := sameNoCase_length hsame
    rw [if_pos hsame, if_neg, if_pos hsame, ← List.drop_append_of_le_length hlong]
    · rfl
    · show ¬ line.length + 2 ≤ 15
      omega
  · rw [if_neg hsame, if_neg hsame]
    exact ite_self _

theorem headerVal_nonempty {line : Bytes} (h : sameNoCase line lengthName = true) :
    headerVal (line ++ [0, 0]) lengthName ≠ [] := by
  rw [headerVal_lengthName, if_pos h]
  intro hnil
  have hblank := List.dropWhile_eq_nil_iff.mp hnil 0 (by simp)
  cases hblank

theorem stol_headerVal {line : Bytes} (h : sameNoCase line lengthName = true) :
    stol (headerVal (line ++ [0, 0]) lengthName) = stol (line.drop 15) := by
  rw [headerVal_lengthName, if_pos h]
  unfold stol
  rw [strtol_blanks, strtol_nuls]

theorem lengthAfter_named {line : Bytes} (h : sameNoCase line lengthName = true) {m : Int64}
    (hm : stol (line.drop 15) = .ok m) (n : Int64) : lengthAfter n line = m := by
  have hval := stol_headerVal h
  rw [hm] at hval
  unfold lengthAfter
  change stol (headerVal (line ++ [0, 0]) (ascii "Content-length:")) = _ at hval
  rw [hval]

theorem lengthAfter_other {line : Bytes} (h : sameNoCase line lengthName = false) (n : Int64) :
    lengthAfter n line = n := by
  have hval := headerVal_lengthName line
  rw [h, if_neg Bool.false_ne_true] at hval
  unfold lengthAfter
  change headerVal (line ++ [0, 0]) (ascii "Content-length:") = _ at hval
  rw [hval]
  rfl

theorem headerLine_iff (line : Bytes) : HeaderLine line ↔ PlainLine line ∧
    (line ++ [0, 0]).head? ≠ some 0 ∧
    (sameNoCase line lengthName = true → ∃ m, stol (line.drop 15) = .ok m) := by
  constructor
  · intro h
    refine ⟨h.plain, h.named, fun hsame => ?_⟩
    obtain ⟨m, hm⟩ := h.number (headerVal_nonempty hsame)
    exact ⟨m, (stol_headerVal hsame).symm.trans hm⟩
  · intro h
    obtain ⟨hplain, hfirst, hnumber⟩ := h
    refine ⟨hplain, hfirst, fun hval => ?_⟩
    by_cases hsame : sameNoCase line lengthName = true
    · obtain ⟨m, hm⟩ := hnumber hsame
      exact ⟨m, (stol_headerVal hsame).trans hm⟩
    · refine absurd ?_ hval
      exact (headerVal_lengthName line).trans (if_neg hsame)

theorem stol_long {line : Bytes} {m : Int64} (hm : stol (line.drop 15) = .ok m) :
    16 ≤ line.length := by
  by_contra hshort
  rw [List.drop_eq_nil_of_le (by omega)] at hm
  cases hm

/-- A new content length takes sixteen bytes. -/
theorem lengthAfter_long {line : Bytes} (h : HeaderLine line) {n : Int64}
    (hnew : lengthAfter n line ≠ n) : 16 ≤ line.length := by
  by_cases hsame : sameNoCase line lengthName = true
  · obtain ⟨m, hm⟩ := ((headerLine_iff line).mp h).2.2 hsame
    exact stol_long hm
  · exact absurd (lengthAfter_other (Bool.not_eq_true _ ▸ hsame) n) hnew

/-! ## The ways to end a line -/

/-- What makes the content length of a line zero, if that can be. -/
def zeroLength (line : Bytes) : Bytes := lengthName.drop line.length ++ [48]

theorem plainLine_zeroLength (line : Bytes) : PlainLine (zeroLength line) := by
  have hname : PlainLine (lengthName ++ [48]) := plainLine_of_all rfl
  intro b hb
  rcases List.mem_append.mp hb with hb | hb
  · exact hname b (List.mem_append_left _ (List.mem_of_mem_drop hb))
  · exact hname b (List.mem_append_right _ hb)

/-- Of the ways to go on with a header line, none is better than to end it here
or to make its content length zero. -/
theorem header_completes (n : Int64) {line more : Bytes} (hfirst : (line ++ [0, 0]).head? ≠ some 0)
    (h : HeaderLine (line ++ more)) :
    (HeaderLine line ∧ (0 ≤ (lengthAfter n (line ++ more)).toInt →
      0 ≤ (lengthAfter n line).toInt ∧
        (lengthAfter n line).toInt ≤ (lengthAfter n (line ++ more)).toInt)) ∨
    ((zeroLength line).length ≤ more.length ∧ lengthAfter 1 (line ++ zeroLength line) = 0) := by
  obtain ⟨hplain', -, hnumber⟩ := (headerLine_iff _).mp h
  have hplain : PlainLine line := fun b hb => hplain' b (List.mem_append_left _ hb)
  by_cases hsame : sameNoCase (line ++ more) lengthName = true
  · obtain ⟨b, hb⟩ := hnumber hsame
    rw [lengthAfter_named hsame hb]
    have hb' := stol_ok_iff.mp hb
    by_cases hshort : line.length < 15
    · have hlong := stol_long hb
      rw [List.length_append] at hlong
      refine .inr ⟨?_, ?_⟩
      · show (lengthName.drop line.length ++ [48]).length ≤ more.length
        rw [List.length_append, List.length_drop]
        show 15 - line.length + 1 ≤ more.length
        omega
      · have hle : line.length ≤ lengthName.length := Nat.le_of_lt hshort
        refine lengthAfter_named (sameNoCase_completed hsame hle [48]) ?_ 1
        have hname : (line ++ lengthName.drop line.length).length = 15 := by
          rw [List.length_append, List.length_drop]
          show line.length + (15 - line.length) = 15
          omega
        rw [← List.append_assoc, List.drop_left' hname]
        rfl
    · have hlong : 15 ≤ line.length := Nat.le_of_not_lt hshort
      have hsame' := sameNoCase_shorter hsame hlong
      rw [List.drop_append_of_le_length hlong] at hb'
      cases ha : strtol (line.drop 15) with
      | none =>
        obtain ⟨hmore, hzero⟩ := strtol_starts ha hb'
        have hlast : zeroLength line = [48] := by
          have hnone : lengthName.drop line.length = [] := List.drop_eq_nil_of_le hlong
          unfold zeroLength
          rw [hnone, List.nil_append]
        rw [hlast]
        refine .inr ⟨List.length_pos_iff.mpr hmore, ?_⟩
        refine lengthAfter_named (sameNoCase_longer hsame') ?_ 1
        rw [List.drop_append_of_le_length hlong]
        exact stol_ok_iff.mpr hzero
      | some a =>
        have hgrows := strtol_grows ha hb'
        have hlow := b.le_toInt
        have hhigh := b.toInt_lt
        have hm : stol (line.drop 15) = .ok (Int64.ofInt a) := by
          rw [stol_ok_iff, ha, Int64.toInt_ofInt_of_le (by omega) (by omega)]
        refine .inl ⟨(headerLine_iff line).mpr ⟨hplain, hfirst, fun _ => ⟨_, hm⟩⟩, ?_⟩
        rw [lengthAfter_named hsame' hm, Int64.toInt_ofInt_of_le (by omega) (by omega)]
        omega
  · have hother : sameNoCase line lengthName = false := by
      rw [← Bool.not_eq_true]
      exact fun hline => hsame (sameNoCase_longer hline)
    refine .inl ⟨(headerLine_iff line).mpr ⟨hplain, hfirst, ?_⟩, ?_⟩
    · rw [hother]
      exact nofun
    · rw [lengthAfter_other (Bool.not_eq_true _ ▸ hsame), lengthAfter_other hother]
      exact fun hpos => ⟨hpos, Int.le_refl _⟩

/-- The line that ends with a content length of zero is a header line. -/
theorem headerLine_zeroLength {line : Bytes} (hplain : PlainLine line)
    (hzero : lengthAfter 1 (line ++ zeroLength line) = 0) (n : Int64) :
    HeaderLine (line ++ zeroLength line) ∧ lengthAfter n (line ++ zeroLength line) = 0 := by
  by_cases hsame : sameNoCase (line ++ zeroLength line) lengthName = true
  · have hnumber : stol ((line ++ zeroLength line).drop 15) = .ok 0 := by
      cases hm : stol ((line ++ zeroLength line).drop 15) with
      | ok m =>
        rw [lengthAfter_named hsame hm] at hzero
        rw [hzero]
      | error e =>
        have hval := stol_headerVal hsame
        change stol (headerVal _ (ascii "Content-length:")) = _ at hval
        unfold lengthAfter at hzero
        rw [hval, hm] at hzero
        cases hzero
    refine ⟨(headerLine_iff _).mpr ⟨?_, ?_, fun _ => ⟨0, hnumber⟩⟩, lengthAfter_named hsame hnumber n⟩
    · intro b hb
      rcases List.mem_append.mp hb with hb | hb
      · exact hplain b hb
      · exact plainLine_zeroLength line b hb
    · obtain ⟨c, hc, hletter⟩ := @sameNoCase_letter _ _ hsame 0 67 rfl
      obtain ⟨rest, hrest⟩ : ∃ rest, line ++ zeroLength line = c :: rest := by
        rw [← List.head?_eq_getElem?] at hc
        exact List.head?_eq_some_iff.mp hc
      rw [hrest]
      intro hnul
      rw [List.cons_append, List.head?_cons, Option.some.injEq] at hnul
      rw [hnul] at hletter
      revert hletter
      decide
  · rw [lengthAfter_other (Bool.not_eq_true _ ▸ hsame)] at hzero
    cases hzero

end Bookstore.PartialHeaders
