import Bookstore.FieldAgreement

/-!
`escape_json_string` and the loop of `json_string_value` that undoes it. The loop
drops a backslash and keeps the byte behind it, so that an escaped line break comes
back as a letter.
-/
namespace Bookstore.JsonEscapes

open HttpTypes TextSearch JsonFields FieldAgreement

/-- The cases of the switch. -/
def escapeJsonByte (c : UInt8) : Bytes :=
  if c = 92 then [92, 92]
  else if c = 34 then [92, 34]
  else if c = 10 then [92, 110]
  else if c = 13 then [92, 114]
  else if c = 9 then [92, 116]
  else [c]

def escapeJsonString (value : Bytes) : Bytes := value.flatMap escapeJsonByte

/-- The object with one field. -/
def fieldText (k s : Bytes) : Bytes :=
  123 :: (quoted k ++ 58 :: (quoted (escapeJsonString s) ++ [125]))

/-- What comes back for a byte. -/
def readBack (c : UInt8) : UInt8 :=
  if c = 10 then 110 else if c = 13 then 114 else if c = 9 then 116 else c

def LineBreakOrTab (c : UInt8) : Prop := c = 10 ∨ c = 13 ∨ c = 9

instance (c : UInt8) : Decidable (LineBreakOrTab c) := by
  unfold LineBreakOrTab
  infer_instance

/-- A byte stands for itself, or a backslash stands in front of what comes back. -/
theorem escapeJsonByte_cases (c : UInt8) :
    escapeJsonByte c = [92, readBack c] ∨
      escapeJsonByte c = [c] ∧ readBack c = c ∧ c ≠ 34 ∧ c ≠ 92 := by
  unfold escapeJsonByte readBack
  by_cases hslash : c = 92
  · subst hslash
    exact .inl rfl
  by_cases hquote : c = 34
  · subst hquote
    exact .inl rfl
  rw [if_neg hslash, if_neg hquote]
  by_cases hfeed : c = 10
  · rw [if_pos hfeed, if_pos hfeed]
    exact .inl rfl
  by_cases hreturn : c = 13
  · rw [if_neg hfeed, if_neg hfeed, if_pos hreturn, if_pos hreturn]
    exact .inl rfl
  by_cases htab : c = 9
  · rw [if_neg hfeed, if_neg hfeed, if_neg hreturn, if_neg hreturn, if_pos htab, if_pos htab]
    exact .inl rfl
  rw [if_neg hfeed, if_neg hfeed, if_neg hreturn, if_neg hreturn, if_neg htab, if_neg htab]
  exact .inr ⟨rfl, rfl, hquote, hslash⟩

theorem readBack_eq_iff (c : UInt8) : readBack c = c ↔ ¬ LineBreakOrTab c := by
  unfold readBack LineBreakOrTab
  by_cases hfeed : c = 10
  · subst hfeed
    decide
  by_cases hreturn : c = 13
  · subst hreturn
    decide
  by_cases htab : c = 9
  · subst htab
    decide
  rw [if_neg hfeed, if_neg hreturn, if_neg htab, not_or, not_or]
  exact iff_of_true rfl ⟨hfeed, hreturn, htab⟩

/-- The loop on an escaped text. -/
theorem readString_escapeJsonString (s rest : Bytes) :
    readString (escapeJsonString s ++ 34 :: rest) = some (s.map readBack) := by
  induction s with
  | nil => exact readString_quote rest
  | cons c s ih =>
    change readString (s.flatMap escapeJsonByte ++ 34 :: rest) = some (s.map readBack) at ih
    rw [escapeJsonString, List.flatMap_cons, List.append_assoc, List.map_cons]
    obtain hescape | ⟨hplain, hsame, hquote, hslash⟩ := escapeJsonByte_cases c
    · rw [hescape, List.cons_append, List.singleton_append, readString_pair, ih, Option.map_some]
    · rw [hplain, hsame, List.singleton_append, readString_cons hquote hslash, ih,
        Option.map_some]

theorem map_readBack_eq_iff (s : Bytes) : s.map readBack = s ↔ ∀ c ∈ s, ¬ LineBreakOrTab c := by
  induction s with
  | nil => exact iff_of_true rfl fun c hc => absurd hc List.not_mem_nil
  | cons c s ih => rw [List.map_cons, List.cons.injEq, readBack_eq_iff, ih, List.forall_mem_cons]

/-- The key is found at the start. -/
theorem find_fieldText (k s : Bytes) : find (quoted k) (fieldText k s) =
    some (quoted k ++ 58 :: (quoted (escapeJsonString s) ++ [125])) := by
  have hskip : find (quoted k) (fieldText k s) =
      find (quoted k) (quoted k ++ 58 :: (quoted (escapeJsonString s) ++ [125])) :=
    @find_skip _ _ 34 [123] (by decide) _ _
  rw [hskip, find_append]

/-- The field that is read back: with a colon in the key, it is the colon behind it. -/
theorem jsonStringValue_fieldText {k : Bytes} (hk : ∀ b ∈ k, b ≠ 34 ∧ b ≠ 92) (s : Bytes) :
    jsonStringValue (fieldText k s) k = some (if 58 ∈ k then [58] else s.map readBack) := by
  rw [jsonStringValue, find_fieldText, Option.bind_some]
  by_cases hcolon : 58 ∈ k
  · obtain ⟨head, tail, rfl, hhead⟩ := List.eq_append_cons_of_mem hcolon
    have hsplit : quoted (head ++ 58 :: tail) ++ 58 :: (quoted (escapeJsonString s) ++ [125]) =
        (34 :: head) ++ 58 :: (tail ++ 34 :: ([58] ++ 34 :: (escapeJsonString s ++ [34, 125]))) := by
      simp only [quoted, List.append_assoc, List.cons_append, List.nil_append]
    have hfirst : 58 ∉ 34 :: head := List.not_mem_cons_of_ne_of_not_mem (by decide) hhead
    have hquote : 34 ∉ tail := fun h =>
      (hk 34 (List.mem_append_right _ (List.mem_cons_of_mem _ h))).1 rfl
    rw [hsplit, stringBehind_colon hfirst, find_letter hquote, Option.bind_some, List.tail_cons,
      readString_plain (List.forall_mem_singleton.mpr (by decide)), if_pos hcolon]
  · have hvalue := @find_letter _ _ 34 [] List.not_mem_nil (escapeJsonString s ++ [34] ++ [125])
    rw [List.nil_append] at hvalue
    rw [stringBehind_colon (colon_notMem_quoted hcolon), quoted, List.cons_append, hvalue,
      Option.bind_some, List.tail_cons, List.append_assoc, List.singleton_append,
      readString_escapeJsonString, if_neg hcolon]

/-- A string comes back exactly when it has no line break and no tab. -/
theorem escape_undone_iff {k : Bytes} (hk : ∀ b ∈ k, b ≠ 34 ∧ b ≠ 92) (s : Bytes) :
    jsonStringValue (fieldText k s) k = some s ↔
      if 58 ∈ k then s = [58] else ∀ c ∈ s, ¬ LineBreakOrTab c := by
  rw [jsonStringValue_fieldText hk, Option.some_inj]
  split
  · exact eq_comm
  · exact map_readBack_eq_iff s

theorem quotes_undone : jsonStringValue (fieldText (ascii "title") (ascii "a \"b\" \\"))
    (ascii "title") = some (ascii "a \"b\" \\") := by
  have hkey : (ascii "title").all (fun b => b != 34 && b != 92) = true := by decide
  refine (escape_undone_iff (plain_of_all hkey) _).mpr ?_
  have hcolon : 58 ∉ ascii "title" := by decide
  have hall : (ascii "a \"b\" \\").all (fun c => decide (¬ LineBreakOrTab c)) = true := by decide
  rw [if_neg hcolon]
  exact fun c hc => of_decide_eq_true (List.all_eq_true.mp hall c hc)

/-- A line break comes back as a letter. -/
theorem line_break_lost : ¬ ∀ k s : Bytes, (∀ b ∈ k, b ≠ 34 ∧ b ≠ 92) →
    jsonStringValue (fieldText k s) k = some s := by
  intro h
  have hkey : (ascii "title").all (fun b => b != 34 && b != 92) = true := by decide
  have hread := h (ascii "title") (ascii "a\nb") (plain_of_all hkey)
  have hlost : jsonStringValue (fieldText (ascii "title") (ascii "a\nb")) (ascii "title") =
      some (ascii "anb") := by decide
  rw [hlost] at hread
  exact absurd hread (by decide)

end Bookstore.JsonEscapes
