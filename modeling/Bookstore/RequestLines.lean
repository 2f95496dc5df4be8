import Bookstore.ChunkedParsing
import Bookstore.PartialLines
import Bookstore.Spans

/-!
The request lines that `parse_request_line` accepts. Their grammar is
method, blanks, URL, blanks, version. The version is compared by its first
eight bytes, so anything may follow it.
-/
namespace Bookstore.RequestLines

open HttpTypes RequestParser RequestParser.HttpConn LineReading ParserExceptions PartialLines Spans

/-! ## The grammar -/

def methodName : Method → Bytes
  | .get => ascii "GET"
  | .post => ascii "POST"

/-- A run of spaces and tabs. -/
structure Blanks (gap : Bytes) : Prop where
  nonempty : gap ≠ []
  blank : ∀ b ∈ gap, isBlank b = true

/-- The same letters, whatever their case. -/
def EqualNoCase (text pattern : Bytes) : Prop := text.map toLower = pattern.map toLower

/-- Where the path of a URL starts. -/
inductive Locates : Bytes → Bytes → Prop
  | path (rest : Bytes) : Locates (47 :: rest) (47 :: rest)
  | authority {scheme authority : Bytes} (rest : Bytes)
      (hscheme : EqualNoCase scheme (ascii "http://") ∨ EqualNoCase scheme (ascii "https://"))
      (hauthority : 47 ∉ authority) :
      Locates (scheme ++ (authority ++ 47 :: rest)) (47 :: rest)

/-- The parts of a request line, and what follows its version. -/
structure Parts where
  method : Method
  gap : Bytes
  url : Bytes
  path : Bytes
  gap' : Bytes
  version : Bytes
  tail : Bytes
  blanks : Blanks gap
  plain : ∀ b ∈ url, isBlank b = false
  located : Locates url path
  blanks' : Blanks gap'
  http11 : EqualNoCase version (ascii "HTTP/1.1")

def Parts.line (p : Parts) : Bytes :=
  methodName p.method ++ (p.gap ++ (p.url ++ (p.gap' ++ (p.version ++ p.tail))))

/-- What `url_` gets. -/
def target (path : Bytes) : Bytes := if path.length = 1 then ascii "/judge.html" else path

/-! ## Comparisons without case -/

/-- `strncasecmp` looks at the start of the text only. -/
theorem sameNoCase_iff {text pattern : Bytes} : sameNoCase text pattern = true ↔
    ∃ head tail, text = head ++ tail ∧ EqualNoCase head pattern := by
  unfold EqualNoCase
  induction pattern generalizing text with
  | nil => exact iff_of_true (by simp [sameNoCase]) ⟨[], text, rfl, rfl⟩
  | cons p pattern ih =>
    cases text with
    | nil =>
      refine iff_of_false (by simp [sameNoCase]) ?_
      intro h
      obtain ⟨head, tail, hsplit, hsame⟩ := h
      rw [(List.append_eq_nil_iff.mp hsplit.symm).1] at hsame
      cases hsame
    | cons c text =>
      rw [sameNoCase, Bool.and_eq_true, beq_iff_eq, ih]
      constructor
      · intro h
        obtain ⟨hc, head, tail, rfl, hsame⟩ := h
        exact ⟨c :: head, tail, rfl, by rw [List.map_cons, List.map_cons, hc, hsame]⟩
      · intro h
        obtain ⟨head, tail, hsplit, hsame⟩ := h
        cases head with
        | nil => cases hsame
        | cons b head =>
          obtain ⟨rfl, rfl⟩ := List.cons.inj hsplit
          obtain ⟨hc, hrest⟩ := List.cons.inj hsame
          exact ⟨hc, head, tail, rfl, hrest⟩

theorem EqualNoCase.length {text pattern : Bytes} (h : EqualNoCase text pattern) :
    text.length = pattern.length := by
  have hlength := congrArg List.length h
  rwa [List.length_map, List.length_map] at hlength

theorem EqualNoCase.getElem? {text pattern : Bytes} (h : EqualNoCase text pattern) (i : ℕ) :
    text[i]?.map toLower = pattern[i]?.map toLower := by
  rw [← List.getElem?_map, ← List.getElem?_map, h]

theorem sameNoCase_append {text pattern : Bytes} (h : EqualNoCase text pattern) (tail : Bytes) :
    sameNoCase (text ++ tail) pattern = true := sameNoCase_iff.mpr ⟨text, tail, rfl, h⟩

/-- A different letter. -/
theorem sameNoCase_differs {text pattern : Bytes} {i : ℕ} {p c : UInt8} (hp : pattern[i]? = some p)
    (hc : text[i]? = some c) (hne : toLower c ≠ toLower p) : sameNoCase text pattern = false := by
  rw [← Bool.not_eq_true]
  intro hsame
  obtain ⟨c', hc', heq⟩ := sameNoCase_letter hsame hp
  rw [hc, Option.some.injEq] at hc'
  exact hne (hc' ▸ heq)

/-! ## The URL -/

theorem slash_split {authority rest : Bytes} (h : 47 ∉ authority) :
    Splits (fun b => decide (b ≠ 47)) authority (47 :: rest) where
  inside b hb := decide_eq_true fun heq => h (heq ▸ hb)
  outside b hb := by
    cases hb
    rfl

theorem stripScheme_path (rest : Bytes) : stripScheme (47 :: rest) = some (47 :: rest) := by
  have hhttp : sameNoCase (47 :: rest) (ascii "http://") = false :=
    @sameNoCase_differs _ _ 0 104 47 (by decide) rfl (by decide)
  have hhttps : sameNoCase (47 :: rest) (ascii "https://") = false :=
    @sameNoCase_differs _ _ 0 104 47 (by decide) rfl (by decide)
  simp only [stripScheme, hhttp, hhttps, Bool.and_false, Bool.false_eq_true, if_false]

theorem stripScheme_http {scheme authority : Bytes} (rest : Bytes)
    (hscheme : EqualNoCase scheme (ascii "http://")) (hauthority : 47 ∉ authority) :
    stripScheme (scheme ++ (authority ++ 47 :: rest)) = some (47 :: rest) := by
  have hlength : scheme.length = 7 := hscheme.length
  have hlong : 7 < (scheme ++ (authority ++ 47 :: rest)).length := by
    rw [List.length_append, List.length_append, List.length_cons]
    omega
  have hdrop : (scheme ++ (authority ++ 47 :: rest)).drop 7 = authority ++ 47 :: rest := by
    rw [← hlength, List.drop_left]
  simp only [stripScheme, hlong, sameNoCase_append hscheme, decide_true, Bool.and_self, if_true,
    hdrop]
  rw [(slash_split hauthority).dropWhile]
  exact if_neg (List.cons_ne_nil _ _)

theorem stripScheme_https {scheme authority : Bytes} (rest : Bytes)
    (hscheme : EqualNoCase scheme (ascii "https://")) (hauthority : 47 ∉ authority) :
    stripScheme (scheme ++ (authority ++ 47 :: rest)) = some (47 :: rest) := by
  have hlength : scheme.length = 8 := hscheme.length
  have hlong : 8 < (scheme ++ (authority ++ 47 :: rest)).length := by
    rw [List.length_append, List.length_append, List.length_cons]
    omega
  have hdrop : (scheme ++ (authority ++ 47 :: rest)).drop 8 = authority ++ 47 :: rest := by
    rw [← hlength, List.drop_left]
  have hhttp : sameNoCase (scheme ++ (authority ++ 47 :: rest)) (ascii "http://") = false := by
    have hletter := hscheme.getElem? 4
    obtain ⟨c, hc⟩ : ∃ c, scheme[4]? = some c :=
      ⟨_, List.getElem?_eq_getElem (by omega)⟩
    have hlower : toLower c = 115 := by
      rw [hc, show (ascii "https://")[4]? = some 115 by decide] at hletter
      exact Option.some.inj hletter
    refine @sameNoCase_differs _ _ 4 58 c (by decide) ?_ ?_
    · rw [List.getElem?_append_left (by omega), hc]
    · rw [hlower]
      decide
  simp only [stripScheme, hhttp, hlong, sameNoCase_append hscheme, decide_true, Bool.and_false,
    Bool.false_eq_true, if_false, Bool.and_self, if_true, hdrop]
  rw [(slash_split hauthority).dropWhile]
  exact if_neg (List.cons_ne_nil _ _)

theorem stripScheme_located {url path : Bytes} (h : Locates url path) :
    stripScheme url = some path := by
  cases h with
  | path rest => exact stripScheme_path rest
  | authority rest hscheme hauthority =>
    rcases hscheme with hscheme | hscheme
    · exact stripScheme_http rest hscheme hauthority
    · exact stripScheme_https rest hscheme hauthority

/-- What follows a scheme: an authority, then the path. -/
theorem rest_of_slash {text : Bytes} (h : text.dropWhile (fun b => decide (b ≠ 47)) ≠ []) :
    ∃ authority rest, text = authority ++ 47 :: rest ∧ 47 ∉ authority ∧
      text.dropWhile (fun b => decide (b ≠ 47)) = 47 :: rest := by
  have hsplit := splits_span (fun b => decide (b ≠ 47)) text
  obtain ⟨b, rest, hrest⟩ := List.exists_cons_of_ne_nil h
  rw [hrest] at hsplit
  have hb : b = 47 := by simpa using hsplit.outside b rfl
  subst hb
  refine ⟨text.takeWhile fun b => decide (b ≠ 47), rest, ?_, ?_, hrest⟩
  · rw [← hrest, List.takeWhile_append_dropWhile]
  · intro hmem
    simpa using hsplit.inside _ hmem

theorem located_of_stripScheme {url rest : Bytes} (h : stripScheme url = some (47 :: rest)) :
    Locates url (47 :: rest) := by
  have hscheme {n : ℕ} {pattern : Bytes} (hn : pattern.length = n)
      (hsame : sameNoCase url pattern = true) :
      ∃ scheme, url = scheme ++ url.drop n ∧ EqualNoCase scheme pattern := by
    obtain ⟨head, tail, rfl, heq⟩ := sameNoCase_iff.mp hsame
    refine ⟨head, ?_, heq⟩
    rw [← hn, ← heq.length, List.drop_left]
  unfold stripScheme at h
  split at h
  · rename_i hhttp
    dsimp only at h
    split at h
    · cases h
    · rename_i hnil
      obtain ⟨scheme, hurl, heq⟩ := hscheme rfl (Bool.and_eq_true_iff.mp hhttp).2
      obtain ⟨authority, rest', htail, hauthority, hdrop⟩ := rest_of_slash hnil
      rw [hdrop] at h
      cases h
      rw [hurl, show (ascii "http://").length = 7 from rfl, htail]
      exact .authority _ (.inl heq) hauthority
  · split at h
    · rename_i hhttps
      dsimp only at h
      split at h
      · cases h
      · rename_i hnil
        obtain ⟨scheme, hurl, heq⟩ := hscheme rfl (Bool.and_eq_true_iff.mp hhttps).2
        obtain ⟨authority, rest', htail, hauthority, hdrop⟩ := rest_of_slash hnil
        rw [hdrop] at h
        cases h
        rw [hurl, show (ascii "https://").length = 8 from rfl, htail]
        exact .authority _ (.inr heq) hauthority
    · cases h
      exact .path rest

/-! ## Lines of the grammar -/

theorem EqualNoCase.not_mem {text pattern : Bytes} (h : EqualNoCase text pattern) {b : UInt8}
    (hb : toLower b ∉ pattern.map toLower) : b ∉ text := by
  intro hmem
  rw [← h] at hb
  exact hb (List.mem_map_of_mem hmem)

theorem version_plain {version : Bytes} (h : EqualNoCase version (ascii "HTTP/1.1")) :
    ∀ b ∈ version, isBlank b = false := by
  intro b hb
  rw [← Bool.not_eq_true, isBlank, Bool.or_eq_true, beq_iff_eq, beq_iff_eq]
  rintro (rfl | rfl)
  · exact h.not_mem (by decide) hb
  · exact h.not_mem (by decide) hb

theorem version_nonempty {version : Bytes} (h : EqualNoCase version (ascii "HTTP/1.1")) :
    version ≠ [] := by
  intro hnil
  have hlength := h.length
  rw [hnil] at hlength
  cases hlength

theorem Locates.slash {url path : Bytes} (h : Locates url path) : ∃ rest, path = 47 :: rest := by
  cases h with
  | path rest => exact ⟨rest, rfl⟩
  | authority rest hscheme hauthority => exact ⟨rest, rfl⟩

theorem url_nonempty {url path : Bytes} (h : Locates url path) : url ≠ [] := by
  cases h with
  | path rest => exact List.cons_ne_nil _ _
  | authority rest hscheme hauthority => simp

theorem not_blank {b : UInt8} : (!isBlank b) = true ↔ isBlank b = false := by simp

theorem methodName_plain (method : Method) : ∀ b ∈ methodName method, isBlank b = false := by
  have hall : (methodName method).all (fun b => !isBlank b) = true := by
    cases method with
    | get => decide
    | post => decide
  exact fun b hb => not_blank.mp (List.all_eq_true.mp hall b hb)

theorem parseMethod_name (method : Method) : parseMethod (methodName method) = some method := by
  cases method with
  | get => decide
  | post => decide

namespace Parts

variable (p : Parts) (rest : Bytes)

theorem splits_method : Splits (fun b => !isBlank b) (methodName p.method) (p.gap ++ rest) :=
  splits_of (fun b hb => not_blank.mpr (methodName_plain _ b hb)) p.blanks.nonempty
    fun b hb => by rw [p.blanks.blank b hb]; rfl

theorem splits_gap : Splits isBlank p.gap (p.url ++ rest) :=
  splits_of p.blanks.blank (url_nonempty p.located) p.plain

theorem splits_url : Splits (fun b => !isBlank b) p.url (p.gap' ++ rest) :=
  splits_of (fun b hb => not_blank.mpr (p.plain b hb)) p.blanks'.nonempty
    fun b hb => by rw [p.blanks'.blank b hb]; rfl

theorem splits_gap' : Splits isBlank p.gap' (p.version ++ rest) :=
  splits_of p.blanks'.blank (version_nonempty p.http11) (version_plain p.http11)

theorem parseTarget_parts :
    parseTarget (p.gap ++ (p.url ++ (p.gap' ++ (p.version ++ rest)))) = some p.path := by
  obtain ⟨path, hpath⟩ := p.located.slash
  have hsome : ¬ (p.url ++ (p.gap' ++ (p.version ++ rest)) = [] ∨
      p.gap' ++ (p.version ++ rest) = [] ∨ p.version ++ rest = []) := by
    simp [url_nonempty p.located, p.blanks'.nonempty, version_nonempty p.http11]
  unfold parseTarget
  dsimp only
  rw [(p.splits_gap _).dropWhile, (p.splits_url _).dropWhile, (p.splits_url _).takeWhile,
    (p.splits_gap' _).dropWhile, if_neg hsome, if_pos (sameNoCase_append p.http11 rest),
    stripScheme_located p.located, hpath]
  rfl

/-- A line of the grammar is accepted, whatever follows its version. -/
theorem parseRequestLine_parts (c : HttpConn) : c.parseRequestLine (p.line ++ [0, 0]) =
    (.noRequest, { c with
      method := p.method
      url := target p.path
      checkState := .header }) := by
  have hline : p.line ++ [0, 0] = methodName p.method ++
      (p.gap ++ (p.url ++ (p.gap' ++ (p.version ++ (p.tail ++ [0, 0]))))) := by
    simp only [line, List.append_assoc]
  have hgap : ¬ p.gap ++ (p.url ++ (p.gap' ++ (p.version ++ (p.tail ++ [0, 0])))) = [] := by
    simp [p.blanks.nonempty]
  unfold HttpConn.parseRequestLine
  dsimp only
  rw [hline, (p.splits_method _).dropWhile, (p.splits_method _).takeWhile, if_neg hgap,
    parseMethod_name]
  dsimp only
  rw [p.parseTarget_parts]
  rfl

/-- A line has one reading. -/
theorem tail_unique {p q : Parts} (h : p.line = q.line) : p.tail = q.tail := by
  obtain ⟨_, hgap⟩ := (p.splits_method _).unique (q.splits_method _) h
  obtain ⟨_, hurl⟩ := (p.splits_gap _).unique (q.splits_gap _) hgap
  obtain ⟨_, hgap'⟩ := (p.splits_url _).unique (q.splits_url _) hurl
  obtain ⟨_, hversion⟩ := (p.splits_gap' _).unique (q.splits_gap' _) hgap'
  exact (List.append_inj hversion (p.http11.length.trans q.http11.length.symm)).2

end Parts

/-! ## Accepted lines -/

/-- The NULs at the end of a line are behind everything that is not NUL. -/
theorem nuls_behind {line before after : Bytes} (h : line ++ [0, 0] = before ++ after)
    (hbefore : before.getLast? ≠ some 0) :
    ∃ tail, after = tail ++ [0, 0] ∧ line = before ++ tail := by
  rcases List.eq_nil_or_concat after with hnil | ⟨init, b, hinit⟩
  · rw [hnil, List.append_nil] at h
    rw [← h] at hbefore
    simp at hbefore
  · rw [List.concat_eq_append] at hinit
    rw [hinit, ← List.append_assoc, show line ++ [0, 0] = line ++ [0] ++ [0] by simp] at h
    obtain ⟨hfirst, hb⟩ := List.append_inj' h rfl
    rcases List.eq_nil_or_concat init with hnil | ⟨init', b', hinit'⟩
    · rw [hnil, List.append_nil] at hfirst
      rw [← hfirst] at hbefore
      simp at hbefore
    · rw [List.concat_eq_append] at hinit'
      rw [hinit', ← List.append_assoc] at hfirst
      obtain ⟨hline, hb'⟩ := List.append_inj' hfirst rfl
      refine ⟨init', ?_, hline⟩
      rw [hinit, hinit', ← hb, ← hb', List.append_assoc]
      rfl

/-- Blanks begin where the text without blanks ends. -/
theorem blanks_of_split {text : Bytes} (h : text.dropWhile (fun b => !isBlank b) ≠ []) :
    Blanks ((text.dropWhile fun b => !isBlank b).takeWhile isBlank) where
  nonempty := by
    obtain ⟨b, rest, hrest⟩ := List.exists_cons_of_ne_nil h
    have hb := (splits_span (fun b => !isBlank b) text).outside b (by rw [hrest]; rfl)
    rw [Bool.not_eq_false'] at hb
    rw [hrest, List.takeWhile_cons_of_pos hb]
    exact List.cons_ne_nil _ _
  blank _ hb := List.mem_takeWhile_imp hb

theorem methodName_of_parse {text : Bytes} {method : Method} (h : parseMethod text = some method) :
    text = methodName method := by
  unfold parseMethod at h
  split at h
  · rename_i hget
    cases h
    exact hget
  · split at h
    · rename_i hpost
      cases h
      exact hpost
    · cases h

/-- The cuts that the code makes are the parts of the line. -/
theorem parts_of_target {name rest line : Bytes} {method : Method} {url : Bytes}
    (hname : name = methodName method) (hline : line ++ [0, 0] = name ++ rest)
    (hgap : Blanks (rest.takeWhile isBlank)) (h : parseTarget rest = some url) :
    ∃ p : Parts, p.line = line := by
  unfold parseTarget at h
  dsimp only at h
  split at h
  · cases h
  · rename_i hsome
    split at h
    · rename_i hversion
      split at h
      · rename_i path hstrip
        obtain ⟨version, after, hafter, hhttp⟩ := sameNoCase_iff.mp hversion
        rw [not_or, not_or] at hsome
        have hgap' := blanks_of_split hsome.2.1
        have hcut : line ++ [0, 0] = (name ++ (rest.takeWhile isBlank ++
            (((rest.dropWhile isBlank).takeWhile fun b => !isBlank b) ++
              (((rest.dropWhile isBlank).dropWhile fun b => !isBlank b).takeWhile isBlank ++
                version)))) ++ after := by
          simp only [List.append_assoc]
          rw [← hafter, List.takeWhile_append_dropWhile, List.takeWhile_append_dropWhile,
            List.takeWhile_append_dropWhile, hline]
        obtain ⟨tail, rfl, hbefore⟩ := nuls_behind hcut (by
          rw [← List.append_assoc, ← List.append_assoc, ← List.append_assoc, List.getLast?_append,
            List.getLast?_eq_some_getLast (version_nonempty hhttp), Option.some_or]
          intro hzero
          exact hhttp.not_mem (by decide) (Option.some.inj hzero ▸ List.getLast_mem _))
        let p : Parts := {
          method := method
          gap := rest.takeWhile isBlank
          url := (rest.dropWhile isBlank).takeWhile fun b => !isBlank b
          path := 47 :: path
          gap' := ((rest.dropWhile isBlank).dropWhile fun b => !isBlank b).takeWhile isBlank
          version := version
          tail := tail
          blanks := hgap
          plain := fun b hb => not_blank.mp (@List.mem_takeWhile_imp _ (fun b => !isBlank b) _ b hb)
          located := located_of_stripScheme hstrip
          blanks' := hgap'
          http11 := hhttp }
        refine ⟨p, ?_⟩
        rw [hbefore, hname]
        simp only [Parts.line, p, List.append_assoc]
      · cases h
    · cases h

theorem parts_of_accepted {c : HttpConn} {line : Bytes}
    (h : (c.parseRequestLine (line ++ [0, 0])).1 ≠ .badRequest) : ∃ p : Parts, p.line = line := by
  unfold HttpConn.parseRequestLine at h
  dsimp only at h
  split at h
  · exact absurd rfl h
  · rename_i hrest
    split at h
    · exact absurd rfl h
    · rename_i method hmethod
      split at h
      · exact absurd rfl h
      · rename_i url hurl
        refine parts_of_target (methodName_of_parse hmethod) ?_ (blanks_of_split hrest) hurl
        exact List.takeWhile_append_dropWhile.symm

/-- Exactly the lines of the grammar with something behind the version. -/
theorem accepted_iff (c : HttpConn) (line : Bytes) :
    (c.parseRequestLine (line ++ [0, 0])).1 ≠ .badRequest ↔ ∃ p : Parts, p.line = line := by
  refine ⟨parts_of_accepted, fun h => ?_⟩
  obtain ⟨p, rfl⟩ := h
  rw [p.parseRequestLine_parts]
  exact nofun

/-- The line is accepted exactly when it is one of the grammar with nothing
behind the version, and then its method and its path are stored. -/
def Parses (c : HttpConn) (line : Bytes) : Prop :=
  ((c.parseRequestLine (line ++ [0, 0])).1 ≠ .badRequest ↔
    ∃ p : Parts, p.tail = [] ∧ p.line = line) ∧
  ∀ p : Parts, p.tail = [] → p.line = line →
    (c.parseRequestLine (line ++ [0, 0])).2.method = p.method ∧
      (c.parseRequestLine (line ++ [0, 0])).2.url = target p.path

theorem parses_iff (c : HttpConn) (line : Bytes) :
    Parses c line ↔ ∀ p : Parts, p.line = line → p.tail = [] := by
  constructor
  · intro h p hp
    obtain ⟨q, hq, hline⟩ := h.1.mp ((accepted_iff c line).mpr ⟨p, hp⟩)
    rw [Parts.tail_unique (hp.trans hline.symm), hq]
  · intro h
    refine ⟨?_, fun p _ hp => ?_⟩
    · rw [accepted_iff]
      exact exists_congr fun p => (and_iff_right_of_imp (h p)).symm
    · rw [← hp, p.parseRequestLine_parts]
      exact ⟨rfl, rfl⟩

/-- A request line is read as the grammar says exactly when it does not go on
behind its version. -/
theorem request_line_parses_iff {env : Env} {chunks : List Bytes} {s : HttpConn × LineStatus}
    (hturns : Turns env .reset chunks s) {d : HttpConn} (hd : Handles s d)
    (hstate : d.checkState = .requestLine) :
    ∃ line, d.getLine = line ++ [0, 0] ∧
      (Parses { d with lineStart := d.checkedIdx } line ↔
        ∀ p : Parts, p.line = line → p.tail = []) := by
  have hs := reading_of_turns hturns reading_reset
  have hline : s.1.parseLine = (.ok, d) := by
    unfold Handles at hd
    split at hd
    · rename_i hcontent
      rw [hd, hcontent.1] at hstate
      cases hstate
    · exact hd
  have hsame := (parseLine_keeps_fields s.1).1
  rw [hline] at hsame
  have hnot : s.1.checkState ≠ .content := by
    rw [← hsame, hstate]
    exact nofun
  obtain ⟨line, rest, _, _, hended⟩ := hs.ended hnot hline
  refine ⟨line, ?_, parses_iff _ line⟩
  rw [hended]
  exact getLine_ended hs.allHandled line rest

/-- The turn that reads the first line of a connection. -/
theorem turns_first (env : Env) {line : Bytes} (hfits : line.length + 2 ≤ kReadBufSize) :
    Turns env .reset [line ++ [13, 10]] (HttpConn.reset.receive (line ++ [13, 10]), .ok) := by
  refine .call ?_ .refl
  rw [List.length_append]
  show 0 + (line.length + 2) ≤ kReadBufSize
  omega

theorem handles_first {line : Bytes} (hline : PlainLine line) :
    Handles (HttpConn.reset.receive (line ++ [13, 10]), .ok) (endedBy .reset line) := by
  have hparse := parseLine_line allHandled_reset hline []
  rw [receive_nil] at hparse
  unfold Handles
  rw [if_neg (fun hcontent => reset_not_content hcontent.1)]
  exact hparse

/-- GET / HTTP/1.1, and what follows it. -/
def getRoot (tail : Bytes) : Parts where
  method := .get
  gap := [32]
  url := [47]
  path := [47]
  gap' := [32]
  version := ascii "HTTP/1.1"
  tail := tail
  blanks := ⟨List.cons_ne_nil _ _, by simp [isBlank]⟩
  plain := by simp [isBlank]
  located := .path []
  blanks' := ⟨List.cons_ne_nil _ _, by simp [isBlank]⟩
  http11 := rfl

theorem plainLine_getRoot {tail : Bytes} (h : tail.all (fun b => !isEol b) = true) :
    PlainLine (getRoot tail).line := by
  have hall : (getRoot tail).line.all (fun b => !isEol b) = true := by
    have hline : (getRoot tail).line = ascii "GET / HTTP/1.1" ++ tail := rfl
    rw [hline, List.all_append, h, Bool.and_true]
    decide
  exact plainLine_of_all hall

/-- An ordinary request line. -/
theorem get_root_parses : Parses { endedBy .reset (getRoot []).line with
    lineStart := (endedBy .reset (getRoot []).line).checkedIdx } (getRoot []).line := by
  obtain ⟨line, hline, hparses⟩ := @request_line_parses_iff ChunkedParsing.bareEnv
    [(getRoot []).line ++ [13, 10]] _ (turns_first _ (by decide)) _
    (handles_first (plainLine_getRoot rfl)) rfl
  rw [getLine_endedBy allHandled_reset] at hline
  rw [← List.append_cancel_right hline] at hparses
  exact hparses.mpr fun p hp => Parts.tail_unique hp

/-- A request line with more behind its version is accepted. -/
theorem trailing_text_accepted : ¬ ∀ (env : Env) (chunks : List Bytes) (s : HttpConn × LineStatus)
    (d : HttpConn), Turns env .reset chunks s → Handles s d → d.checkState = .requestLine →
    ∃ line, d.getLine = line ++ [0, 0] ∧ Parses { d with lineStart := d.checkedIdx } line := by
  intro h
  have hplain := @plainLine_getRoot (ascii "xyz") (by decide)
  obtain ⟨line, hline, hparses⟩ := h ChunkedParsing.bareEnv
    [(getRoot (ascii "xyz")).line ++ [13, 10]] _ _ (turns_first _ (by decide))
    (handles_first hplain) rfl
  rw [getLine_endedBy allHandled_reset] at hline
  rw [← List.append_cancel_right hline] at hparses
  exact absurd ((parses_iff _ _).mp hparses _ rfl) (by decide)

end Bookstore.RequestLines
