import Bookstore.HttpTypes

/-!
Percent decoding and the query string of a URL.
-/
namespace Bookstore.UrlParams

open HttpTypes

def hexVal (c : UInt8) : Option UInt8 :=
  if 48 ≤ c ∧ c ≤ 57 then some (c - 48)
  else if 65 ≤ c ∧ c ≤ 70 then some (c - 65 + 10)
  else if 97 ≤ c ∧ c ≤ 102 then some (c - 97 + 10)
  else none

/-- A percent sign that is not followed by two hex digits stays. -/
def urlDecode : Bytes → Bytes
  | 37 :: h :: l :: rest =>
    match hexVal h, hexVal l with
    | some hi, some lo => ((hi <<< 4) ||| lo) :: urlDecode rest
    | _, _ => 37 :: urlDecode (h :: l :: rest)
  | c :: rest => c :: urlDecode rest
  | [] => []

/-- The parts of a list between separators. -/
def splitOn (sep : UInt8) : Bytes → List Bytes
  | [] => [[]]
  | c :: rest =>
    if c = sep then [] :: splitOn sep rest
    else
      match splitOn sep rest with
      | part :: parts => (c :: part) :: parts
      | [] => [[c]]

theorem splitOn_append (sep : UInt8) (s t : Bytes) :
    splitOn sep (s ++ sep :: t) = splitOn sep s ++ splitOn sep t := by
  induction s with
  | nil => simp only [splitOn, List.nil_append, if_true, List.cons_append]
  | cons c s ih =>
    simp only [List.cons_append, splitOn, ih]
    by_cases hsep : c = sep
    · simp only [hsep, if_true, List.cons_append]
    · simp only [hsep, if_false]
      have hparts : splitOn sep s ≠ [] := by
        cases s with
        | nil => exact List.cons_ne_nil _ _
        | cons b s =>
          unfold splitOn
          split
          · exact List.cons_ne_nil _ _
          · split <;> exact List.cons_ne_nil _ _
      cases hsplit : splitOn sep s with
      | nil => exact absurd hsplit hparts
      | cons part parts => rfl

/-- `emplace`: the first value of a key stays. -/
def emplace (params : List (Bytes × Bytes)) (key value : Bytes) : List (Bytes × Bytes) :=
  if params.any fun p => p.1 = key then params else params ++ [(key, value)]

/-- The tokens between `&`; those without `=` are skipped. -/
def parseQueryString (query : Bytes) : List (Bytes × Bytes) :=
  (splitOn 38 query).foldl (fun params token =>
    if 61 ∈ token then
      emplace params (urlDecode (token.takeWhile (· ≠ 61)))
        (urlDecode ((token.dropWhile (· ≠ 61)).drop 1))
    else params) []

/-- The path, and the parameters after the first `?`. -/
def splitPathAndQuery (url : Bytes) : Bytes × List (Bytes × Bytes) :=
  if 63 ∈ url then
    (url.takeWhile (· ≠ 63), parseQueryString ((url.dropWhile (· ≠ 63)).drop 1))
  else (url, [])

end Bookstore.UrlParams
