import Bookstore.UrlParams
import Mathlib.Data.List.Forall2

/-!
Query strings as a client writes them. Keys and values are percent-encoded, so that
the separators only stand between them, and decoding gives every byte back.
-/
namespace Bookstore.QueryStrings

open HttpTypes UrlParams

/-! ## Percent encoding -/

/-- A byte that `encodeURIComponent` writes as it is. -/
def Unreserved (c : UInt8) : Prop :=
  (65 ≤ c ∧ c ≤ 90) ∨ (97 ≤ c ∧ c ≤ 122) ∨ (48 ≤ c ∧ c ≤ 57) ∨ c ∈ ascii "-_.~!*'()"

instance (c : UInt8) : Decidable (Unreserved c) := by
  unfold Unreserved
  infer_instance

def upperHex (n : UInt8) : UInt8 := if n < 10 then 48 + n else 55 + n

def lowerHex (n : UInt8) : UInt8 := if n < 10 then 48 + n else 87 + n

def HexDigit (n digit : UInt8) : Prop := digit = upperHex n ∨ digit = lowerHex n

instance (n digit : UInt8) : Decidable (HexDigit n digit) := by
  unfold HexDigit
  infer_instance

/-- The second text is the first one, percent-encoded. -/
inductive Encodes : Bytes → Bytes → Prop
  | nil : Encodes [] []
  | plain {c : UInt8} {s text : Bytes} : Unreserved c → Encodes s text →
      Encodes (c :: s) (c :: text)
  | escaped {c high low : UInt8} {s text : Bytes} : ¬ Unreserved c → HexDigit (c / 16) high →
      HexDigit (c % 16) low → Encodes s text → Encodes (c :: s) (37 :: high :: low :: text)

/-- `encodeURIComponent` on the bytes of a text. -/
def encodeURIComponent (s : Bytes) : Bytes :=
  s.flatMap fun c => if Unreserved c then [c] else [37, upperHex (c / 16), upperHex (c % 16)]

theorem encodes_encodeURIComponent (s : Bytes) : Encodes s (encodeURIComponent s) := by
  induction s with
  | nil => exact .nil
  | cons c s ih =>
    rw [encodeURIComponent, List.flatMap_cons]
    by_cases hc : Unreserved c
    · rw [if_pos hc]
      exact .plain hc ih
    · rw [if_neg hc]
      exact .escaped hc (.inl rfl) (.inl rfl) ih

theorem forall_byte {p : UInt8 → Prop} (h : ∀ n : Fin 256, p (UInt8.ofFin n)) (c : UInt8) : p c :=
  h c.toFin

theorem hexVal_hexDigit {n digit : UInt8} (hn : n < 16) (h : HexDigit n digit) :
    hexVal digit = some n := by
  have hall : n < 16 → hexVal (upperHex n) = some n ∧ hexVal (lowerHex n) = some n :=
    forall_byte (p := fun n => n < 16 → hexVal (upperHex n) = some n ∧
      hexVal (lowerHex n) = some n) (by decide +kernel) n
  obtain ⟨hupper, hlower⟩ := hall hn
  obtain rfl | rfl := h
  · exact hupper
  · exact hlower

theorem join_digits (c : UInt8) : (c / 16) <<< 4 ||| c % 16 = c :=
  forall_byte (p := fun c => (c / 16) <<< 4 ||| c % 16 = c) (by decide +kernel) c

theorem digits_lt (c : UInt8) : c / 16 < 16 ∧ c % 16 < 16 :=
  forall_byte (p := fun c => c / 16 < 16 ∧ c % 16 < 16) (by decide +kernel) c

/-- No separator and no percent sign is written as it is. -/
theorem unreserved_ne {c : UInt8} (hc : Unreserved c) : c ≠ 37 ∧ c ≠ 38 ∧ c ≠ 61 := by
  refine ⟨?_, ?_, ?_⟩
  all_goals
    rintro rfl
    revert hc
    decide

theorem hexDigit_ne {n digit : UInt8} (hn : n < 16) (h : HexDigit n digit) :
    digit ≠ 38 ∧ digit ≠ 61 := by
  have hval := hexVal_hexDigit hn h
  refine ⟨?_, ?_⟩
  all_goals
    rintro rfl
    cases hval

/-! ## Decoding -/

theorem urlDecode_cons {c : UInt8} (hc : c ≠ 37) (rest : Bytes) :
    urlDecode (c :: rest) = c :: urlDecode rest := by
  rw [urlDecode]
  exact fun _ _ _ h _ => absurd h hc

theorem urlDecode_escape {c high low : UInt8} (hhigh : HexDigit (c / 16) high)
    (hlow : HexDigit (c % 16) low) (rest : Bytes) :
    urlDecode (37 :: high :: low :: rest) = c :: urlDecode rest := by
  rw [urlDecode, hexVal_hexDigit (digits_lt c).1 hhigh, hexVal_hexDigit (digits_lt c).2 hlow]
  simp only [join_digits]

/-- Decoding undoes the encoding, whatever the case of the digits. -/
theorem Encodes.urlDecode_eq {s text : Bytes} (h : Encodes s text) : urlDecode text = s := by
  induction h with
  | nil => rfl
  | plain hc _ ih => rw [urlDecode_cons (unreserved_ne hc).1, ih]
  | escaped _ hhigh hlow _ ih => rw [urlDecode_escape hhigh hlow, ih]

/-- An encoded text has no separator. -/
theorem Encodes.separator_free {s text : Bytes} (h : Encodes s text) :
    ∀ b ∈ text, b ≠ 38 ∧ b ≠ 61 := by
  induction h with
  | nil => exact fun b hb => absurd hb List.not_mem_nil
  | plain hc _ ih => exact List.forall_mem_cons.mpr ⟨(unreserved_ne hc).2, ih⟩
  | @escaped c _ _ _ _ _ hhigh hlow _ ih =>
    exact List.forall_mem_cons.mpr ⟨⟨by decide, by decide⟩,
      List.forall_mem_cons.mpr ⟨hexDigit_ne (digits_lt c).1 hhigh,
        List.forall_mem_cons.mpr ⟨hexDigit_ne (digits_lt c).2 hlow, ih⟩⟩⟩

/-! ## Tokens -/

/-- `k=v` -/
def token (text : Bytes × Bytes) : Bytes := text.1 ++ 61 :: text.2

/-- The tokens with `&` between them. -/
def queryText (texts : List (Bytes × Bytes)) : Bytes := List.intercalate [38] (texts.map token)

theorem takeWhile_stop {stop : UInt8} {s : Bytes} (h : stop ∉ s) (rest : Bytes) :
    (s ++ stop :: rest).takeWhile (· ≠ stop) = s := by
  have hs : ∀ b ∈ s, decide (b ≠ stop) = true :=
    fun b hb => decide_eq_true fun heq => h (heq ▸ hb)
  rw [List.takeWhile_append_of_pos hs, List.takeWhile_cons_of_neg (by simp), List.append_nil]

theorem dropWhile_stop {stop : UInt8} {s : Bytes} (h : stop ∉ s) (rest : Bytes) :
    ((s ++ stop :: rest).dropWhile (· ≠ stop)).drop 1 = rest := by
  have hs : ∀ b ∈ s, decide (b ≠ stop) = true :=
    fun b hb => decide_eq_true fun heq => h (heq ▸ hb)
  rw [List.dropWhile_append_of_pos hs, List.dropWhile_cons_of_neg (by simp)]
  rfl

theorem splitOn_of_notMem {sep : UInt8} {s : Bytes} (h : sep ∉ s) : splitOn sep s = [s] := by
  induction s with
  | nil => rfl
  | cons c s ih =>
    rw [splitOn, if_neg (List.ne_of_not_mem_cons h).symm, ih (List.not_mem_of_not_mem_cons h)]

theorem splitOn_intercalate {sep : UInt8} {parts : List Bytes} (hne : parts ≠ [])
    (h : ∀ part ∈ parts, sep ∉ part) : splitOn sep (List.intercalate [sep] parts) = parts := by
  induction parts with
  | nil => exact absurd rfl hne
  | cons part parts ih =>
    obtain ⟨hpart, hparts⟩ := List.forall_mem_cons.mp h
    cases parts with
    | nil => rw [List.intercalate_singleton, splitOn_of_notMem hpart]
    | cons next parts =>
      rw [List.intercalate_cons_cons, List.append_assoc, List.singleton_append, splitOn_append,
        splitOn_of_notMem hpart, ih (List.cons_ne_nil _ _) hparts, List.singleton_append]

/-- A pair and its encoded texts. -/
def EncodesPair (pair text : Bytes × Bytes) : Prop :=
  Encodes pair.1 text.1 ∧ Encodes pair.2 text.2

theorem EncodesPair.notMem_token {pair text : Bytes × Bytes} (h : EncodesPair pair text) :
    38 ∉ token text := by
  intro hmem
  rcases List.mem_append.mp hmem with hkey | hrest
  · exact (h.1.separator_free _ hkey).1 rfl
  rcases List.mem_cons.mp hrest with hequals | hvalue
  · exact absurd hequals (by decide)
  · exact (h.2.separator_free _ hvalue).1 rfl

/-- What the loop does with a token. -/
def insertToken (params : List (Bytes × Bytes)) (token : Bytes) : List (Bytes × Bytes) :=
  if 61 ∈ token then
    emplace params (urlDecode (token.takeWhile (· ≠ 61)))
      (urlDecode ((token.dropWhile (· ≠ 61)).drop 1))
  else params

theorem insertToken_new {pair text : Bytes × Bytes} (h : EncodesPair pair text)
    {params : List (Bytes × Bytes)} (hnew : pair.1 ∉ params.map Prod.fst) :
    insertToken params (token text) = params ++ [pair] := by
  have hmem : 61 ∈ token text := List.mem_append_right _ List.mem_cons_self
  have hkey : 61 ∉ text.1 := fun hmem => (h.1.separator_free _ hmem).2 rfl
  have hnone : ¬ (params.any fun p => p.1 = pair.1) = true := by
    intro hany
    obtain ⟨p, hp, hsame⟩ := List.any_eq_true.mp hany
    exact hnew (List.mem_map.mpr ⟨p, hp, of_decide_eq_true hsame⟩)
  rw [insertToken, if_pos hmem, token, takeWhile_stop hkey, dropWhile_stop hkey,
    h.1.urlDecode_eq, h.2.urlDecode_eq, emplace, if_neg hnone]

/-- Every token adds its pair. -/
theorem insertTokens {pairs texts params : List (Bytes × Bytes)}
    (h : List.Forall₂ EncodesPair pairs texts)
    (hkeys : ((params ++ pairs).map Prod.fst).Nodup) :
    (texts.map token).foldl insertToken params = params ++ pairs := by
  induction h generalizing params with
  | nil => exact (List.append_nil params).symm
  | @cons pair text pairs texts hfirst _ ih =>
    have hsplit : params ++ pair :: pairs = params ++ [pair] ++ pairs := by
      rw [List.append_assoc, List.singleton_append]
    have hnew : pair.1 ∉ params.map Prod.fst := by
      rw [List.map_append, List.map_cons] at hkeys
      exact fun hmem => (List.nodup_append.mp hkeys).2.2 _ hmem _ List.mem_cons_self rfl
    rw [hsplit] at hkeys
    rw [List.map_cons, List.foldl_cons, insertToken_new hfirst hnew, ih hkeys, ← hsplit]

theorem parseQueryString_queryText {pairs texts : List (Bytes × Bytes)}
    (h : List.Forall₂ EncodesPair pairs texts) (hkeys : (pairs.map Prod.fst).Nodup) :
    parseQueryString (queryText texts) = pairs := by
  change (splitOn 38 (queryText texts)).foldl insertToken [] = pairs
  by_cases hnone : texts = []
  · subst hnone
    cases h
    rfl
  · have htokens : ∀ part ∈ texts.map token, 38 ∉ part := by
      clear hkeys hnone
      induction h with
      | nil => exact fun part hpart => absurd hpart List.not_mem_nil
      | cons hfirst _ ih => exact List.forall_mem_cons.mpr ⟨hfirst.notMem_token, ih⟩
    rw [queryText, splitOn_intercalate (mt List.map_eq_nil_iff.mp hnone) htokens]
    exact insertTokens h hkeys

/-- The path and the pairs come back. -/
theorem query_string_survives {path : Bytes} (hpath : 63 ∉ path)
    {pairs texts : List (Bytes × Bytes)} (h : List.Forall₂ EncodesPair pairs texts)
    (hkeys : (pairs.map Prod.fst).Nodup) :
    splitPathAndQuery (path ++ 63 :: queryText texts) = (path, pairs) := by
  have hmark : 63 ∈ path ++ 63 :: queryText texts := List.mem_append_right _ List.mem_cons_self
  rw [splitPathAndQuery, if_pos hmark, takeWhile_stop hpath, dropWhile_stop hpath,
    parseQueryString_queryText h hkeys]

theorem search_survives : splitPathAndQuery (ascii "/api/books/search" ++
    63 :: queryText [(ascii "q", encodeURIComponent (ascii "C++ & =")), (ascii "", ascii "%3f")]) =
      (ascii "/api/books/search", [(ascii "q", ascii "C++ & ="), (ascii "", ascii "?")]) := by
  have hmark : Encodes (ascii "?") (ascii "%3f") :=
    .escaped (by decide) (by decide) (by decide) .nil
  exact query_string_survives (by decide)
    (.cons ⟨.plain (by decide) .nil, encodes_encodeURIComponent _⟩ (.cons ⟨.nil, hmark⟩ .nil))
    (by decide)

end Bookstore.QueryStrings
