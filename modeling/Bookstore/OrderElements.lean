import Bookstore.OrderRequests
import Mathlib.Data.List.Nodup
import Mathlib.Data.List.Perm.Subperm

/-!
`handle_create_order` on any JSON object with a user and a list of items. The loop
does not know where an item ends, so that the pieces it takes need not be the items.
-/
namespace Bookstore.OrderElements

open HttpTypes RequestParser Records TextSearch JsonFields JsonIntegers JsonGrammar JsonResponses
open OrderMarks OrderRequests

abbrev Element := List (List Char × Json)

/-- A JSON object with an integer `user_id` and an array `items` of objects. -/
structure OrderBody where
  body : Bytes
  members : List (List Char × Json)
  userId : ℤ
  elements : List Element
  decodes : Decodes body (.object members)
  user : ("user_id".toList, .number userId) ∈ members
  items : ("items".toList, .array (elements.map .object)) ∈ members

/-- Both numbers stand in the element. -/
def TakenFrom (item : OrderItemRequest) (element : Element) : Prop :=
  ("book_id".toList, intValue item.bookId) ∈ element ∧
    ("quantity".toList, intValue item.quantity) ∈ element

/-- Any order that is placed has one entry for each element, taken from it. -/
def TakenWhole (o : OrderBody) : Prop :=
  ∀ (answer : Option Order) (request : HttpRequest), request.body = o.body →
    ∀ call ∈ calls answer request, List.Forall₂ TakenFrom call.2 o.elements

/-- The integer that is written behind the first place of a quoted name. -/
def writtenFor (name body : Bytes) : Option ℤ := (find (quoted name) body).bind writtenBehind

/-- Nothing is ordered: no integer is written behind the user, or there is no first pair. -/
def Refused (body : Bytes) : Prop :=
  writtenFor (ascii "user_id") body = none ∨ Stuck (marks body)

/-- An integer that is a number of the element once it is reduced to the range of `int`,
modulo `2^32`. -/
def Names (name : String) (n : ℤ) (element : Element) : Prop :=
  (name.toList, .number (n.bmod (2 ^ 32) : ℤ)) ∈ element

/-- The words fall into one piece for each element, with the element's own numbers written
behind the two, and a rest that holds no pair. -/
def LinedUp (elements : List Element) (m : List Mark) : Prop :=
  ∃ pieces rest, m = pieces.flatten ++ rest ∧ Stuck rest ∧
    List.Forall₂ (fun piece element => ∃ bookId quantity, Piece bookId quantity piece ∧
      Names "book_id" bookId element ∧ Names "quantity" quantity element) pieces elements

theorem takenFrom_ofInt_iff (bookId quantity : ℤ) (element : Element) :
    TakenFrom ⟨Int32.ofInt bookId, Int32.ofInt quantity⟩ element ↔
      Names "book_id" bookId element ∧ Names "quantity" quantity element := by
  unfold TakenFrom Names intValue
  rw [Int32.toInt_ofInt, Int32.toInt_ofInt]
  rfl

theorem jsonIntValue_eq_writtenFor (body name : Bytes) :
    jsonIntValue body name = (writtenFor name body).map Int32.ofInt := by
  rw [jsonIntValue, jsonIntValueFrom, List.drop_zero, writtenFor]
  cases find (quoted name) body with
  | none => rfl
  | some key => exact intBehind_eq_written key

theorem jsonOrderItems_eq_nil (body : Bytes) : jsonOrderItems body = [] ↔ Stuck (marks body) := by
  rw [jsonOrderItems_iff]
  constructor
  · rintro ⟨pieces, rest, hpieces, hmarks, hstuck⟩
    cases hpieces
    rw [hmarks]
    exact hstuck
  · intro hstuck
    exact ⟨[], marks body, .nil, rfl, hstuck⟩

theorem taken_iff_linedUp (body : Bytes) (elements : List Element) :
    List.Forall₂ TakenFrom (jsonOrderItems body) elements ↔ LinedUp elements (marks body) := by
  obtain ⟨pieces, rest, hpieces, hmarks, hstuck⟩ := (jsonOrderItems_iff body _).mp rfl
  constructor
  · intro htaken
    refine ⟨pieces, rest, hmarks, hstuck, ?_⟩
    generalize jsonOrderItems body = items at hpieces htaken
    clear hmarks
    induction hpieces generalizing elements with
    | nil =>
      cases htaken
      exact .nil
    | cons hfirst _ ih =>
      obtain ⟨bookId, quantity, hpiece, rfl⟩ := hfirst
      cases htaken with
      | cons htaken hothers =>
        exact .cons ⟨bookId, quantity, hpiece, (takenFrom_ofInt_iff _ _ _).mp htaken⟩
          (ih _ hothers)
  · rintro ⟨pieces', rest', hmarks', hstuck', hlined⟩
    -- the loop takes the pieces of the cut
    have hitems : ∃ items, List.Forall₂ TakenOff items pieces' ∧
        List.Forall₂ TakenFrom items elements := by
      clear hmarks'
      induction hlined with
      | nil => exact ⟨[], .nil, .nil⟩
      | cons hfirst _ ih =>
        obtain ⟨bookId, quantity, hpiece, hnames⟩ := hfirst
        obtain ⟨items, hpieces, hothers⟩ := ih
        exact ⟨_ :: items, .cons ⟨bookId, quantity, hpiece, rfl⟩ hpieces,
          .cons ((takenFrom_ofInt_iff _ _ _).mpr hnames) hothers⟩
    obtain ⟨items, hpieces', htaken⟩ := hitems
    rw [(jsonOrderItems_iff body items).mpr ⟨pieces', rest', hpieces', hmarks', hstuck'⟩]
    exact htaken

/-- The list that is passed is the list that is read. -/
theorem takenWhole_iff_read (o : OrderBody) : TakenWhole o ↔
    Refused o.body ∨ List.Forall₂ TakenFrom (jsonOrderItems o.body) o.elements := by
  have hnoUser : writtenFor (ascii "user_id") o.body = none ↔
      jsonIntValue o.body (ascii "user_id") = none := by
    rw [jsonIntValue_eq_writtenFor, Option.map_eq_none_iff]
  rw [Refused, ← jsonOrderItems_eq_nil, hnoUser]
  constructor
  · intro h
    by_cases hnone : jsonOrderItems o.body = []
    · exact .inl (.inr hnone)
    cases huser : jsonIntValue o.body (ascii "user_id") with
    | none => exact .inl (.inl rfl)
    | some userId =>
      refine .inr (h none ⟨.post, [], o.body, [], []⟩ rfl (userId, jsonOrderItems o.body) ?_)
      rw [calls_eq, if_neg hnone, huser]
      exact List.mem_singleton.mpr rfl
  · rintro h answer request hbody call hcall
    rw [calls_eq, hbody] at hcall
    split at hcall
    · exact absurd hcall List.not_mem_nil
    · next hsome =>
      obtain ⟨userId, huser, rfl⟩ := Option.map_eq_some_iff.mp (Option.mem_toList.mp hcall)
      rcases h with (hnone | hnone) | htaken
      · rw [hnone] at huser
        cases huser
      · exact absurd hnone hsome
      · exact htaken

/-- An order is taken whole exactly when it is refused or its words line up with the
elements. -/
theorem taken_whole_iff (o : OrderBody) :
    TakenWhole o ↔ Refused o.body ∨ LinedUp o.elements (marks o.body) := by
  rw [takenWhole_iff_read, taken_iff_linedUp]

/-! ## Bodies where the words are the fields of the elements -/

def intOf : Json → Option ℤ
  | .number q => if q.den = 1 then some q.num else none
  | _ => none

def wordName : Word → List Char
  | .book => "book_id".toList
  | .quantity => "quantity".toList

def wordOf (name : List Char) : Option Word :=
  if name = wordName .book then some .book
  else if name = wordName .quantity then some .quantity
  else none

/-- The marks that the fields of an element should leave. -/
def fieldMarks (element : Element) : List Mark :=
  element.filterMap fun field => (wordOf field.1).map fun w => ⟨w, intOf field.2⟩

/-- No name twice in an element. The words stand nowhere but as names of its fields, and
behind them is written the integer of the field, or none where the value is no integer. -/
structure Plain (o : OrderBody) : Prop where
  distinct : ∀ element ∈ o.elements, (element.map Prod.fst).Nodup
  marks : marks o.body = (o.elements.map fieldMarks).flatten

def InIntRange (n : ℤ) : Prop := -2147483648 ≤ n ∧ n < 2147483648

/-- A `book_id` and behind it a `quantity`, both integers in the range of `int`. -/
def InOrder (element : Element) : Prop :=
  ∃ bookId quantity : ℤ, InIntRange bookId ∧ InIntRange quantity ∧
    fieldMarks element = [⟨.book, some bookId⟩, ⟨.quantity, some quantity⟩]

theorem name_of_wordOf {name : List Char} {w : Word} (h : wordOf name = some w) :
    name = wordName w := by
  unfold wordOf at h
  split at h
  · next hname =>
    cases h
    exact hname
  split at h
  · next hname =>
    cases h
    exact hname
  · cases h

theorem eq_number_of_intOf {v : Json} {n : ℤ} (h : intOf v = some n) : v = .number n := by
  cases v with
  | number q =>
    rw [intOf] at h
    split at h
    · next hden =>
      obtain rfl := Option.some.inj h
      exact congrArg Json.number ((Rat.den_eq_one_iff q).mp hden).symm
    · cases h
  | _ => cases h

/-- A mark with an integer comes from a field with it. -/
theorem mem_of_fieldMarks {element : Element} {w : Word} {n : ℤ}
    (h : ⟨w, some n⟩ ∈ fieldMarks element) :
    (wordName w, .number n) ∈ element := by
  obtain ⟨⟨name, v⟩, hmem, hmark⟩ := List.mem_filterMap.mp h
  obtain ⟨w', hw', heq⟩ := Option.map_eq_some_iff.mp hmark
  obtain ⟨rfl, hint⟩ := Mark.mk.inj heq
  rw [← name_of_wordOf hw', ← eq_number_of_intOf hint]
  exact hmem

theorem bmod_eq_self_iff (n : ℤ) : n.bmod (2 ^ 32) = n ↔ InIntRange n := by
  unfold InIntRange
  rw [Int.bmod_def]
  split <;> omega

/-- Where no name stands twice, the integer of a field is the one its name stands for exactly
when it needs no reduction. -/
theorem names_iff {element : Element} (hdistinct : (element.map Prod.fst).Nodup) {w : Word} {n : ℤ}
    {name : String} (hname : name.toList = wordName w) (h : ⟨w, some n⟩ ∈ fieldMarks element) :
    Names name n element ↔ InIntRange n := by
  have hmem := mem_of_fieldMarks h
  rw [← bmod_eq_self_iff, Names, hname]
  constructor
  · intro hreduced
    have hsame := List.inj_on_of_nodup_map hdistinct hreduced hmem rfl
    have hnumber := Json.number.inj (Prod.mk.inj hsame).2
    exact_mod_cast hnumber
  · intro hself
    rw [hself]
    exact hmem

/-- With distinct names, an element leaves at most two marks. -/
theorem fieldMarks_length {element : Element} (h : (element.map Prod.fst).Nodup) :
    (fieldMarks element).length ≤ 2 := by
  have hwords : (fieldMarks element).map Mark.word = (element.map Prod.fst).filterMap wordOf := by
    rw [fieldMarks, List.map_filterMap, List.filterMap_map]
    refine List.filterMap_congr fun field _ => ?_
    rw [Option.map_map]
    exact Option.map_id'
  have hnodup : ((fieldMarks element).map Mark.word).Nodup := by
    rw [hwords]
    refine List.Nodup.filterMap (fun name name' w hname hname' => ?_) h
    rw [name_of_wordOf hname, name_of_wordOf hname']
  have hboth : (fieldMarks element).map Mark.word ⊆ [.book, .quantity] := by
    intro w _
    cases w <;> decide
  have hle := (List.subperm_of_subset hnodup hboth).length_le
  rwa [List.length_map] at hle

theorem flatten_length_le {α : Type} {short long : List (List α)}
    (h : List.Forall₂ (fun a b => a.length ≤ b.length) short long) :
    short.flatten.length ≤ long.flatten.length := by
  induction h with
  | nil => exact Nat.le_refl 0
  | cons hfirst _ ih =>
    rw [List.flatten_cons, List.flatten_cons, List.length_append, List.length_append]
    omega

/-- Lists that are no longer than those of a cut of their concatenation are that cut. -/
theorem cut_unique {α : Type} {short long : List (List α)} {rest : List α}
    (h : List.Forall₂ (fun a b => a.length ≤ b.length) short long)
    (heq : short.flatten = long.flatten ++ rest) : short = long ∧ rest = [] := by
  induction h with
  | nil => exact ⟨rfl, heq.symm⟩
  | @cons a b short long hfirst hothers ih =>
    rw [List.flatten_cons, List.flatten_cons, List.append_assoc] at heq
    have hle := flatten_length_le hothers
    have hlength := congrArg List.length heq
    simp only [List.length_append] at hlength
    obtain ⟨rfl, htail⟩ := List.append_inj heq (by omega)
    obtain ⟨rfl, hrest⟩ := ih htail
    exact ⟨rfl, hrest⟩

theorem plain_linedUp_iff {o : OrderBody} (h : Plain o) :
    LinedUp o.elements (marks o.body) ↔ ∀ element ∈ o.elements, InOrder element := by
  constructor
  · rintro ⟨pieces, rest, hmarks, -, hlined⟩
    have hlengths : List.Forall₂ (fun a b => a.length ≤ b.length) (o.elements.map fieldMarks)
        pieces := by
      rw [List.forall₂_map_left_iff]
      have hflip := hlined.flip
      have hdistinct := h.distinct
      generalize o.elements = elements at hflip hdistinct
      clear hmarks hlined
      induction hflip with
      | nil => exact .nil
      | cons hfirst _ ih =>
        obtain ⟨bookId, quantity, hpiece, -⟩ := hfirst
        obtain ⟨hnames, hothers⟩ := List.forall_mem_cons.mp hdistinct
        exact .cons (Nat.le_trans (fieldMarks_length hnames) hpiece.two_le) (ih hothers)
    obtain ⟨rfl, -⟩ := cut_unique hlengths (h.marks.symm.trans hmarks)
    intro element helement
    have hlined' := List.forall₂_same.mp (List.forall₂_map_left_iff.mp hlined) element helement
    obtain ⟨bookId, quantity, hpiece, hbook, hquantity⟩ := hlined'
    have hdistinct := h.distinct element helement
    have hpair := hpiece.eq_of_length (fieldMarks_length hdistinct)
    have hfirst : ⟨.book, some bookId⟩ ∈ fieldMarks element := by simp [hpair]
    have hsecond : ⟨.quantity, some quantity⟩ ∈ fieldMarks element := by simp [hpair]
    exact ⟨bookId, quantity, (names_iff hdistinct rfl hfirst).mp hbook,
      (names_iff hdistinct rfl hsecond).mp hquantity, hpair⟩
  · intro hinOrder
    refine ⟨o.elements.map fieldMarks, [], ?_, stuck_nil, ?_⟩
    · rw [List.append_nil, h.marks]
    · rw [List.forall₂_map_left_iff, List.forall₂_same]
      intro element helement
      obtain ⟨bookId, quantity, hbook, hquantity, hpair⟩ := hinOrder element helement
      have hdistinct := h.distinct element helement
      have hfirst : ⟨.book, some bookId⟩ ∈ fieldMarks element := by simp [hpair]
      have hsecond : ⟨.quantity, some quantity⟩ ∈ fieldMarks element := by simp [hpair]
      refine ⟨bookId, quantity, ⟨[], [], ?_, ?_, hpair⟩,
        (names_iff hdistinct rfl hfirst).mpr hbook,
        (names_iff hdistinct rfl hsecond).mpr hquantity⟩
      all_goals exact fun m hm => absurd hm List.not_mem_nil

/-- Where the words are the fields of the elements, every element has to name an integer
`book_id` and behind it an integer `quantity`, both in the range of `int`. -/
theorem plain_taken_iff {o : OrderBody} (h : Plain o) :
    TakenWhole o ↔ Refused o.body ∨ ∀ element ∈ o.elements, InOrder element := by
  rw [takenWhole_iff_read, taken_iff_linedUp, plain_linedUp_iff h]

/-! ## An order for the wrong book -/

def intMember (name : String) (n : Int32) : List Char × Json := (name.toList, intValue n)

def intMemberText (name : String) (n : Int32) : List Char × List Char := (name.toList, intChars n)

/-- The first item has no quantity. -/
def missingText : List Char :=
  objectText [intMemberText "user_id" 1, ("items".toList, arrayText
    [objectText [intMemberText "book_id" 1],
      objectText [intMemberText "book_id" 2, intMemberText "quantity" 3]])]

theorem derives_missingText : Derives missingText (.value (.object [intMember "user_id" 1,
    ("items".toList, .array [.object [intMember "book_id" 1],
      .object [intMember "book_id" 2, intMember "quantity" 3]])])) :=
  derives_objectText (.cons ⟨chars_plain rfl, derives_intChars _⟩
    (.cons ⟨chars_plain rfl, derives_arrayText
      (.cons (derives_objectText (.cons ⟨chars_plain rfl, derives_intChars _⟩ .nil))
      (.cons (derives_objectText (.cons ⟨chars_plain rfl, derives_intChars _⟩
        (.cons ⟨chars_plain rfl, derives_intChars _⟩ .nil))) .nil))⟩ .nil))

def missingBody : OrderBody where
  body := Utf8.utf8 missingText
  members := _
  userId := 1
  elements := [[intMember "book_id" 1], [intMember "book_id" 2, intMember "quantity" 3]]
  decodes := decodes_of_derives derives_missingText
  user := List.mem_cons_self
  items := List.mem_cons_of_mem _ List.mem_cons_self

theorem marks_missingBody : marks missingBody.body =
    [⟨.book, some 1⟩, ⟨.book, some 2⟩, ⟨.quantity, some 3⟩] := by
  decide

example : Plain missingBody where
  distinct := by decide
  marks := by
    rw [marks_missingBody]
    decide

/-- The quantity of the second item is ordered of the first book. -/
theorem wrong_book_ordered : ¬ ∀ o : OrderBody, TakenWhole o := by
  intro h
  have hitems : jsonOrderItems missingBody.body = [⟨1, 3⟩] := by
    rw [jsonOrderItems_iff]
    refine ⟨[_], [], .cons ⟨1, 3, ⟨[], [⟨.book, some 2⟩], by simp, by simp, rfl⟩, rfl⟩ .nil, ?_,
      stuck_nil⟩
    rw [marks_missingBody]
    rfl
  have hread := (takenWhole_iff_read missingBody).mp (h missingBody)
  rw [Refused, ← jsonOrderItems_eq_nil, hitems] at hread
  rcases hread with (hnone | hnone) | htaken
  · have huser : writtenFor (ascii "user_id") missingBody.body = some 1 := by decide
    rw [huser] at hnone
    cases hnone
  · cases hnone
  · cases htaken with
    | cons _ hothers => cases hothers

end Bookstore.OrderElements
