import Mathlib.Data.List.Forall2
import SharedList.Proofs.Building
import SharedList.Proofs.Cursors
import SharedList.Proofs.TotalOrder
import SharedList.Session.Exchange

/-!
# Encoding and decoding undo each other

A chain is encoded by its reader, whose hint is announced, and decoded by way of a draft.  What is
said here of elements holds of chains of them, and so of chains of chains and of chains of pairs.

* `Cursor.announced` — the hint that a sequence announces; `encode_eq_announced` — chains are
  encoded with it.
* `Chain.decode_seq` — decoding is decoding the items one by one, making them, and putting them in
  front of the empty chain; what is announced does not matter.
* `RoundTrips` — what is decoded from the form of an element is an element like it.
* `Restores` — what is decoded is encoded to the form that it came from.
* `RoundTrips.chain`, `RoundTrips.pair`, `RoundTrips.nest` — these from elements to chains, to
  pairs, and to chains of any depth; `Restores.chain`, … — the other way round.
* `chains_round_trip` — all of this together, and in JSON.
-/

set_option autoImplicit false

namespace SharedList

variable {α β γ ε κ : Type}

/-! ## What a chain announces -/

/-- What a sequence that is written from a reader announces: the hint, where it leaves no doubt. -/
def Cursor.announced (c : Cursor α) : Option Nat :=
  if c.sizeHint.2 = some c.sizeHint.1 then c.sizeHint.2 else none

namespace Chain

theorem announced_cursor (xs : Chain α) : xs.cursor.announced = some xs.length := if_pos rfl

theorem exhaust_cursor (xs : Chain α) : xs.cursor.exhaust.1 = xs.toList := by
  rw [Cursor.exhaust, Cell.readAll_eq]
  rfl

/-- A chain is written from its reader. -/
theorem encode_eq_announced (xs : Chain α) (element : α → Serial) :
    xs.encode element = .seq xs.cursor.announced (xs.cursor.exhaust.1.map element) := by
  rw [announced_cursor, exhaust_cursor, encode]

end Chain

/-! ## Decoding a sequence -/

namespace Chain

theorem eq_seq_of_decode {element : Decoder α} {s : Serial} {make : Fresh (Chain α)}
    (h : decode element s = .ok make) : ∃ announced items, s = .seq announced items := by
  cases s with
  | seq announced items => exact ⟨announced, items, rfl⟩
  | _ => cases h

end Chain

/-! ## Rows that are decoded and made -/

section Rows

variable {rel : α → β → Prop}

/-- Where each item is decoded, all of them are. -/
theorem mapM_eq_ok_of_forall₂ {decode : γ → Except ε α} {items : List γ} {xs : List β}
    (h : List.Forall₂ (fun item x => ∃ a, decode item = .ok a ∧ rel a x) items xs) :
    ∃ row, items.mapM decode = .ok row ∧ List.Forall₂ rel row xs := by
  induction h with
  | nil => exact ⟨[], rfl, .nil⟩
  | cons hitem _ ih =>
    obtain ⟨a, ha, hrel⟩ := hitem
    obtain ⟨row, hrow, hrels⟩ := ih
    refine ⟨a :: row, ?_, .cons hrel hrels⟩
    rw [List.mapM_cons, ha, hrow]
    rfl

/-- Where all items are decoded, each of them is. -/
theorem forall₂_of_mapM_eq_ok {decode : γ → Except ε α} {items : List γ} {row : List α}
    (h : items.mapM decode = .ok row) :
    List.Forall₂ (fun a item => decode item = .ok a) row items := by
  induction items generalizing row with
  | nil =>
    cases h
    exact .nil
  | cons item items ih =>
    rw [List.mapM_cons] at h
    cases hitem : decode item with
    | error e =>
      rw [hitem] at h
      cases h
    | ok a =>
      cases hrest : items.mapM decode with
      | error e =>
        rw [hitem, hrest] at h
        cases h
      | ok rest =>
        rw [hitem, hrest] at h
        cases h
        exact .cons hitem (ih hrest)

/-- What holds of each element whenever it is made holds of the row that is made. -/
theorem Fresh.forall₂_mapM {makes : List (Fresh α)} {xs : List β}
    (h : List.Forall₂ (fun make x => ∀ next, rel (make next).1 x) makes xs) (next : Label) :
    List.Forall₂ rel (makes.mapM id next).1 xs := by
  induction h generalizing next with
  | nil => exact .nil
  | cons hmake _ ih =>
    rw [List.mapM_cons]
    exact .cons (hmake next) (ih _)

variable (rel) in
/-- What holds of each element whenever it is made holds of the elements of the chain. -/
theorem Chain.making_spec {makes : List (Fresh α)} {xs : List β}
    (h : List.Forall₂ (fun make x => ∀ next, rel (make next).1 x) makes xs) (next : Label) :
    (making makes next).1.WellFormed ∧ (making makes next).1.length = xs.length ∧
      List.Forall₂ rel (making makes next).1.toList xs := by
  have hrow := Fresh.forall₂_mapM h next
  have hmaking : making makes next =
      prepend (makes.mapM id next).1 empty (makes.mapM id next).2 := rfl
  have hbuilt := built_prepend (makes.mapM id next).1 empty (makes.mapM id next).2
  rw [hmaking]
  refine ⟨hbuilt.wellFormed wellFormed_empty nofun, ?_, ?_⟩
  · rw [hbuilt.length, hrow.length_eq]
    rfl
  · rw [toList_prepend_empty]
    exact hrow

end Rows

/-! ## From a value to its form and back -/

/-- The form of every good element is decoded, as an element that is good and like it. -/
def RoundTrips (good : α → Prop) (alike : α → α → Prop) (encode : α → Serial)
    (decode : Decoder α) : Prop :=
  ∀ x, good x → ∃ make, decode (encode x) = .ok make ∧
    ∀ next, good (make next).1 ∧ alike x (make next).1

/-- The chain is well formed, and its elements are good. -/
def Chain.All (good : α → Prop) (xs : Chain α) : Prop := xs.WellFormed ∧ ∀ x ∈ xs.toList, good x

/-- The chains have the same length, and elements that are alike in the same order. -/
def Chain.Resembles (alike : α → α → Prop) (xs ys : Chain α) : Prop :=
  xs.length = ys.length ∧ List.Forall₂ alike xs.toList ys.toList

/-- The form of a pair. -/
def Serial.encodePair (first : α → Serial) (second : β → Serial) (p : α × β) : Serial :=
  .seq (some 2) [first p.1, second p.2]

namespace RoundTrips

variable {good : α → Prop} {alike : α → α → Prop} {encode : α → Serial} {decode : Decoder α}

/-- A chain is decoded from the forms of its elements, whatever is announced. -/
theorem decode_elements (h : RoundTrips good alike encode decode) {xs : Chain α}
    (hxs : Chain.All good xs) (announced : Option Nat) :
    ∃ make, Chain.decode decode (.seq announced (xs.toList.map encode)) = .ok make ∧
      ∀ next, Chain.All good (make next).1 ∧ Chain.Resembles alike xs (make next).1 := by
  obtain ⟨hwf, hgood⟩ := hxs
  obtain ⟨makes, hmakes, hrel⟩ := mapM_eq_ok_of_forall₂
    (List.forall₂_map_left_iff.mpr (List.forall₂_same.mpr fun x hx => h x (hgood x hx)))
  refine ⟨Chain.making makes, ?_, fun next => ?_⟩
  · rw [Chain.decode_seq, hmakes]
    rfl
  · obtain ⟨hmade, hlength, hrow⟩ :=
      Chain.making_spec (fun a x => good a ∧ alike x a) hrel next
    obtain ⟨hall, halike⟩ := (List.forall₂_and_left _ _).mp hrow
    refine ⟨⟨hmade, hall⟩, ?_, halike.flip⟩
    rw [hlength, hwf.toList_length]

theorem chain (h : RoundTrips good alike encode decode) :
    RoundTrips (Chain.All good) (Chain.Resembles alike) (fun xs => xs.encode encode)
      (Chain.decode decode) :=
  fun _ hxs => h.decode_elements hxs _

theorem pair {good' : β → Prop} {alike' : β → β → Prop} {encode' : β → Serial}
    {decode' : Decoder β} (h : RoundTrips good alike encode decode)
    (h' : RoundTrips good' alike' encode' decode') :
    RoundTrips (fun p => good p.1 ∧ good' p.2) (fun p q => alike p.1 q.1 ∧ alike' p.2 q.2)
      (Serial.encodePair encode encode') (Serial.decodePair decode decode') := by
  rintro ⟨x, y⟩ ⟨hx, hy⟩
  obtain ⟨makeFirst, hfirst, hmadeFirst⟩ := h x hx
  obtain ⟨makeSecond, hsecond, hmadeSecond⟩ := h' y hy
  refine ⟨do return (← makeFirst, ← makeSecond), ?_, fun next => ?_⟩
  · simp only [Serial.encodePair, Serial.decodePair, hfirst, hsecond]
    rfl
  · obtain ⟨hgood, halike⟩ := hmadeFirst next
    obtain ⟨hgood', halike'⟩ := hmadeSecond (makeFirst next).2
    exact ⟨⟨hgood, hgood'⟩, halike, halike'⟩

end RoundTrips

/-! ## From a form to its value and back -/

/-- What is decoded from a form has, once it is made, the same form. -/
def Restores (same : Serial → Serial → Prop) (encode : α → Serial) (decode : Decoder α) : Prop :=
  ∀ s make, decode s = .ok make → ∀ next, same s (encode (make next).1)

/-- Two sequences of the same items, the second of which announces how many they are. -/
inductive Serial.SameSeq (same : Serial → Serial → Prop) : Serial → Serial → Prop
  | seq {announced : Option Nat} {items items' : List Serial} :
      List.Forall₂ same items items' →
      SameSeq same (.seq announced items) (.seq (some items.length) items')

/-- Two sequences of the same two items, the second of which announces two. -/
inductive Serial.SamePair (same same' : Serial → Serial → Prop) : Serial → Serial → Prop
  | seq {announced : Option Nat} {a a' b b' : Serial} : same a a' → same' b b' →
      SamePair same same' (.seq announced [a, b]) (.seq (some 2) [a', b'])

namespace Restores

variable {same : Serial → Serial → Prop} {encode : α → Serial} {decode : Decoder α}

theorem chain (h : Restores same encode decode) :
    Restores (Serial.SameSeq same) (fun xs : Chain α => xs.encode encode)
      (Chain.decode decode) := by
  intro s make hmake next
  obtain ⟨announced, items, rfl⟩ := Chain.eq_seq_of_decode hmake
  rw [Chain.decode_seq] at hmake
  cases hitems : items.mapM decode with
  | error e =>
    rw [hitems] at hmake
    cases hmake
  | ok makes =>
    rw [hitems] at hmake
    cases hmake
    have hmakes : List.Forall₂ (fun make item => ∀ next, same item (encode (make next).1))
        makes items := (forall₂_of_mapM_eq_ok hitems).imp fun make item hitem => h item make hitem
    obtain ⟨-, hlength, hrow⟩ :=
      Chain.making_spec (fun a item => same item (encode a)) hmakes next
    show Serial.SameSeq same _ (.seq (some (Chain.making makes next).1.length) _)
    rw [hlength]
    exact .seq (List.forall₂_map_right_iff.mpr hrow.flip)

theorem pair {same' : Serial → Serial → Prop} {encode' : β → Serial} {decode' : Decoder β}
    (h : Restores same encode decode) (h' : Restores same' encode' decode') :
    Restores (Serial.SamePair same same') (Serial.encodePair encode encode')
      (Serial.decodePair decode decode') := by
  intro s make hmake next
  obtain ⟨announced, a, b, makeFirst, makeSecond, rfl, hfirst, hsecond, rfl⟩ :=
    Serial.decodePair_eq_ok hmake
  exact .seq (h a makeFirst hfirst next) (h' b makeSecond hsecond (makeFirst next).2)

end Restores

/-! ## Chains of chains -/

namespace Nest

/-- Every chain at every depth is well formed, and the elements are good. -/
def All (good : α → Prop) : (depth : Nat) → Nest α depth → Prop
  | 0 => good
  | depth + 1 => Chain.All (All good depth)

/-- The chains have the same lengths at every depth, and elements that are alike in one order. -/
def Resembles (alike : α → α → Prop) : (depth : Nat) → Nest α depth → Nest α depth → Prop
  | 0 => alike
  | depth + 1 => Chain.Resembles (Resembles alike depth)

/-- The form of chains of chains. -/
def encode (element : α → Serial) : (depth : Nat) → Nest α depth → Serial
  | 0 => element
  | depth + 1 => fun xs => Chain.encode xs (encode element depth)

/-- Decodes chains of chains. -/
def decode (element : Decoder α) : (depth : Nat) → Decoder (Nest α depth)
  | 0 => element
  | depth + 1 => Chain.decode (decode element depth)

/-- Sequences of the same items at every depth, those of the second of which announce how many
they are. -/
def Same (same : Serial → Serial → Prop) : Nat → Serial → Serial → Prop
  | 0 => same
  | depth + 1 => Serial.SameSeq (Same same depth)

end Nest

/-- What round-trips as an element does so in chains of any depth. -/
theorem RoundTrips.nest {good : α → Prop} {alike : α → α → Prop} {encode : α → Serial}
    {decode : Decoder α} (h : RoundTrips good alike encode decode) (depth : Nat) :
    RoundTrips (Nest.All good depth) (Nest.Resembles alike depth) (Nest.encode encode depth)
      (Nest.decode decode depth) := by
  induction depth with
  | zero => exact h
  | succ depth ih => exact ih.chain

/-- What is restored as an element is so in chains of any depth. -/
theorem Restores.nest {same : Serial → Serial → Prop} {encode : α → Serial} {decode : Decoder α}
    (h : Restores same encode decode) (depth : Nat) :
    Restores (Nest.Same same depth) (Nest.encode encode depth) (Nest.decode decode depth) := by
  induction depth with
  | zero => exact h
  | succ depth ih => exact ih.chain

/-! ## By way of JSON -/

namespace Serial

theorem toJson_ofJson (j : Json) : (ofJson j).toJson = j := by
  induction j using ofJson.induct with
  | case6 items ih =>
    have hitems : items.map (fun item => (ofJson item).toJson) = items :=
      (List.map_congr_left ih).trans (List.map_id items)
    rw [ofJson, toJson, List.map_map]
    exact congrArg Json.arr hitems
  | case7 members ih =>
    have hmembers : members.map (fun member => (member.1, (ofJson member.2).toJson)) = members := by
      refine (List.map_congr_left fun member hmember => ?_).trans (List.map_id members)
      exact Prod.ext rfl (ih member hmember)
    rw [ofJson, toJson, List.map_map]
    exact congrArg Json.obj hmembers
  | _ => rw [ofJson, toJson]

/-- Every sequence in the form announces the number of its items, so that the form can be read back
from its JSON. -/
def Announces (s : Serial) : Prop := ofJson s.toJson = s

theorem announces_seq_iff {announced : Option Nat} {items : List Serial} :
    (seq announced items).Announces ↔
      announced = some items.length ∧ ∀ item ∈ items, item.Announces := by
  have hitems := List.map_inj_left (f := ofJson ∘ toJson) (g := id) (l := items)
  rw [List.map_id] at hitems
  unfold Announces
  rw [toJson, ofJson, List.map_map, List.length_map, seq.injEq, eq_comm, hitems]
  rfl

/-- Two forms that are the same in JSON, where it does not show what a sequence announces. -/
def SameJson (s t : Serial) : Prop := t.toJson = s.toJson

theorem SameSeq.sameJson {s t : Serial} (h : SameSeq SameJson s t) : s.SameJson t := by
  obtain ⟨hitems⟩ := h
  rename_i announced items items'
  have hmap : items'.map toJson = items.map toJson := by
    rw [← List.forall₂_eq_eq_eq, List.forall₂_map_left_iff, List.forall₂_map_right_iff]
    exact hitems.flip
  rw [SameJson, toJson, toJson, hmap]

theorem SamePair.sameJson {s t : Serial} (h : SamePair SameJson SameJson s t) : s.SameJson t := by
  obtain ⟨ha, hb⟩ := h
  rw [SameJson, toJson, toJson, List.map_cons, List.map_cons, List.map_cons, List.map_cons, ha, hb]

end Serial

/-- A form in which every sequence announces the number of its items is given back as it was, if
those of the elements are. -/
theorem Nest.Same.eq {same : Serial → Serial → Prop}
    (hsame : ∀ s t, s.Announces → same s t → s = t) {depth : Nat} {s t : Serial}
    (hs : s.Announces) (h : Nest.Same same depth s t) : s = t := by
  induction depth generalizing s t with
  | zero => exact hsame s t hs h
  | succ depth ih =>
    obtain ⟨hitems⟩ := h
    rename_i announced items items'
    obtain ⟨rfl, hannounce⟩ := Serial.announces_seq_iff.mp hs
    have hrow : items = items' := by
      obtain ⟨hlength, hzip⟩ := List.forall₂_iff_zip.mp hitems
      rw [← List.forall₂_eq_eq_eq, List.forall₂_iff_zip]
      exact ⟨hlength, fun hab => ih (hannounce _ (List.of_mem_zip hab).1) (hzip hab)⟩
    rw [← hrow]

/-- The forms of good elements announce how many items each sequence has. -/
def Announcing (good : α → Prop) (encode : α → Serial) : Prop := ∀ x, good x → (encode x).Announces

theorem Announcing.chain {good : α → Prop} {encode : α → Serial} (h : Announcing good encode) :
    Announcing (Chain.All good) fun xs => xs.encode encode := by
  rintro xs ⟨hwf, hgood⟩
  refine Serial.announces_seq_iff.mpr ⟨?_, List.forall_mem_map.mpr fun x hx => h x (hgood x hx)⟩
  rw [List.length_map, hwf.toList_length]

theorem Announcing.pair {good : α → Prop} {encode : α → Serial} (h : Announcing good encode)
    {good' : β → Prop} {encode' : β → Serial} (h' : Announcing good' encode') :
    Announcing (fun p => good p.1 ∧ good' p.2) (Serial.encodePair encode encode') := by
  rintro ⟨x, y⟩ ⟨hx, hy⟩
  refine Serial.announces_seq_iff.mpr ⟨rfl, List.forall_mem_cons.mpr ⟨h x hx, ?_⟩⟩
  exact List.forall_mem_singleton.mpr (h' y hy)

theorem Announcing.nest {good : α → Prop} {encode : α → Serial} (h : Announcing good encode)
    (depth : Nat) : Announcing (Nest.All good depth) (Nest.encode encode depth) := by
  induction depth with
  | zero => exact h
  | succ depth ih => exact ih.chain

/-! ## The elements of sessions -/

/-- The form of a number. -/
def Serial.encodeInt (n : Int64) : Serial := .int n.toInt

theorem roundTrips_int : RoundTrips (fun _ => True) Eq Serial.encodeInt Serial.decodeInt := by
  intro n _
  refine ⟨pure n, ?_, fun next => ⟨trivial, rfl⟩⟩
  show (if _ then _ else _ : Except DecodeError (Fresh Int64)) = _
  rw [if_pos ⟨n.minValue_le_toInt, n.toInt_le⟩, Int64.ofInt_toInt]

theorem restores_int : Restores Eq Serial.encodeInt Serial.decodeInt := by
  intro s make hmake next
  cases s with
  | int n =>
    simp only [Serial.decodeInt] at hmake
    by_cases hrange : Int64.minValue.toInt ≤ n ∧ n ≤ Int64.maxValue.toInt
    · rw [if_pos hrange] at hmake
      cases hmake
      have hn : (Int64.ofInt n).toInt = n :=
        Int64.toInt_ofInt_of_le hrange.1 (Int.lt_add_one_of_le hrange.2)
      exact congrArg Serial.int hn.symm
    · rw [if_neg hrange] at hmake
      cases hmake
  | _ => cases hmake

theorem roundTrips_string : RoundTrips (fun _ => True) Eq Serial.str Serial.decodeString :=
  fun s _ => ⟨pure s, rfl, fun _ => ⟨trivial, rfl⟩⟩

theorem restores_string : Restores Eq Serial.str Serial.decodeString := by
  intro s make hmake next
  cases s with
  | str text =>
    cases hmake
    rfl
  | _ => cases hmake

section Values

variable {encode : α → Serial} {decode : Decoder α} {value : α → Value}
  (hvalue : ∀ x, (value x).encode = encode x)
include hvalue

/-- What round-trips does so as a value. -/
theorem RoundTrips.asValue (h : RoundTrips (fun _ => True) Eq encode decode) :
    RoundTrips (fun v => ∃ x, v = value x) Eq Value.encode (decode.asValue value) := by
  rintro _ ⟨x, rfl⟩
  obtain ⟨make, hmake, hmade⟩ := h x trivial
  refine ⟨make >>= fun x => pure (value x), ?_, fun next => ?_⟩
  · rw [Decoder.asValue, hvalue, hmake]
    rfl
  · obtain ⟨-, hx⟩ := hmade next
    exact ⟨⟨_, rfl⟩, congrArg value hx⟩

theorem Restores.asValue (h : Restores Eq encode decode) :
    Restores Serial.SameJson Value.encode (decode.asValue value) := by
  intro s make hmake next
  unfold Decoder.asValue at hmake
  cases hdecoded : decode s with
  | error e =>
    rw [hdecoded] at hmake
    cases hmake
  | ok makeInner =>
    rw [hdecoded] at hmake
    cases hmake
    have hform : (value (makeInner next).1).encode = s :=
      (hvalue _).trans (h s makeInner hdecoded next).symm
    exact congrArg Serial.toJson hform

end Values

namespace Shape

/-- The elements of a shape: numbers, texts, pairs of a text and a number, or chains of numbers. -/
def good : (shape : Shape) → shape.kind.Elem → Prop
  | ints => fun v => ∃ n, v = Value.int n
  | strings => fun v => ∃ s, v = Value.str s
  | pairs => fun p => (∃ s, p.1 = Value.str s) ∧ ∃ n, p.2 = Value.int n
  | nested => Chain.All fun v => ∃ n, v = Value.int n

/-- Equal, or, of chains, of the same length and with equal elements. -/
def alike : (shape : Shape) → shape.kind.Elem → shape.kind.Elem → Prop
  | ints | strings => Eq
  | pairs => fun p q => p.1 = q.1 ∧ p.2 = q.2
  | nested => Chain.Resembles Eq

theorem value_int (n : Int64) : (Value.int n).encode = Serial.encodeInt n := by
  rw [Value.encode, Serial.encodeInt]

theorem value_str (s : String) : (Value.str s).encode = Serial.str s := by rw [Value.encode]

theorem roundTrips (shape : Shape) :
    RoundTrips shape.good shape.alike shape.kind.encode shape.element := by
  cases shape with
  | ints => exact roundTrips_int.asValue value_int
  | strings => exact roundTrips_string.asValue value_str
  | pairs => exact (roundTrips_string.asValue value_str).pair (roundTrips_int.asValue value_int)
  | nested => exact (roundTrips_int.asValue value_int).chain

theorem restores (shape : Shape) :
    Restores Serial.SameJson shape.kind.encode shape.element := by
  cases shape with
  | ints => exact restores_int.asValue value_int
  | strings => exact restores_string.asValue value_str
  | pairs =>
    intro s make hmake next
    have hpair := (restores_string.asValue value_str).pair (restores_int.asValue value_int)
    exact (hpair s make hmake next).sameJson
  | nested =>
    intro s make hmake next
    exact ((restores_int.asValue value_int).chain s make hmake next).sameJson

theorem announcing (shape : Shape) : Announcing shape.good shape.kind.encode := by
  have hints : Announcing (fun v => ∃ n, v = Value.int n) Value.encode := by
    rintro _ ⟨n, rfl⟩
    rw [value_int, Serial.Announces, Serial.encodeInt, Serial.toJson, Serial.ofJson]
  have hstrings : Announcing (fun v => ∃ s, v = Value.str s) Value.encode := by
    rintro _ ⟨s, rfl⟩
    rw [value_str, Serial.Announces, Serial.toJson, Serial.ofJson]
  cases shape with
  | ints => exact hints
  | strings => exact hstrings
  | pairs => exact hstrings.pair hints
  | nested => exact hints.chain

end Shape

/-! ## All chains -/

/-- A chain announces the number of the items that it writes, front to back. -/
theorem Chain.encode_eq_of_wellFormed {xs : Chain α} (hxs : xs.WellFormed) (encode : α → Serial) :
    xs.encode encode = .seq (some (xs.toList.map encode).length) (xs.toList.map encode) := by
  rw [Chain.encode, List.length_map, hxs.toList_length]

/-- **Chains round-trip.**  If keys and elements do, so do chains of elements of any depth, and
chains of any depth of pairs of a key and such a chain; and what is decoded from a sequence is
encoded to the same sequence.  A chain announces how many items it writes. -/
theorem chains_round_trip {goodKey : κ → Prop} {alikeKey : κ → κ → Prop} {encodeKey : κ → Serial}
    {decodeKey : Decoder κ} {sameKey : Serial → Serial → Prop} {good : α → Prop}
    {alike : α → α → Prop} {encode : α → Serial} {decode : Decoder α}
    {same : Serial → Serial → Prop} (hkey : RoundTrips goodKey alikeKey encodeKey decodeKey)
    (helement : RoundTrips good alike encode decode) (hkey' : Restores sameKey encodeKey decodeKey)
    (helement' : Restores same encode decode) :
    -- What is announced
    (∀ xs : Chain α, xs.WellFormed →
      xs.encode encode = .seq xs.cursor.announced (xs.cursor.exhaust.1.map encode) ∧
        xs.encode encode = .seq (some (xs.toList.map encode).length) (xs.toList.map encode)) ∧
    (Announcing good encode →
      ∀ depth, Announcing (Nest.All good depth) (Nest.encode encode depth)) ∧
    (∀ announced items,
      Chain.decode decode (.seq announced items) = Chain.decode decode (.seq none items)) ∧
    -- From chains to sequences and back
    (∀ depth, RoundTrips (Nest.All good depth) (Nest.Resembles alike depth)
      (Nest.encode encode depth) (Nest.decode decode depth)) ∧
    (∀ depth depth', RoundTrips
      (Nest.All (fun p : κ × Nest α depth => goodKey p.1 ∧ Nest.All good depth p.2) depth')
      (Nest.Resembles (fun p q => alikeKey p.1 q.1 ∧ Nest.Resembles alike depth p.2 q.2) depth')
      (Nest.encode (Serial.encodePair encodeKey (Nest.encode encode depth)) depth')
      (Nest.decode (Serial.decodePair decodeKey (Nest.decode decode depth)) depth')) ∧
    -- From sequences to chains and back
    (∀ depth, Restores (Nest.Same same depth) (Nest.encode encode depth)
      (Nest.decode decode depth)) ∧
    (∀ depth depth', Restores (Nest.Same (Serial.SamePair sameKey (Nest.Same same depth)) depth')
      (Nest.encode (Serial.encodePair encodeKey (Nest.encode encode depth)) depth')
      (Nest.decode (Serial.decodePair decodeKey (Nest.decode decode depth)) depth')) ∧
    ((∀ s t, s.Announces → same s t → s = t) → ∀ depth s make, s.Announces →
      Nest.decode decode depth s = .ok make →
        ∀ next, Nest.encode encode depth (make next).1 = s) ∧
    -- By way of JSON
    (∀ (shape : Shape) (xs : Chain shape.kind.Elem), Chain.All shape.good xs →
      ∃ make, Chain.decode shape.element (.ofJson (xs.encode shape.kind.encode).toJson) = .ok make ∧
        ∀ next, Chain.All shape.good (make next).1 ∧ Chain.Resembles shape.alike xs (make next).1) ∧
    ∀ (shape : Shape) (j : Json) (make : Fresh (Chain shape.kind.Elem)),
      Chain.decode shape.element (.ofJson j) = .ok make →
        ∀ next, ((make next).1.encode shape.kind.encode).toJson = j := by
  refine ⟨fun xs hxs => ⟨xs.encode_eq_announced encode, Chain.encode_eq_of_wellFormed hxs encode⟩,
    Announcing.nest, fun announced => Chain.decode_announced decode announced none, helement.nest,
    fun depth depth' => (hkey.pair (helement.nest depth)).nest depth', helement'.nest,
    fun depth depth' => (hkey'.pair (helement'.nest depth)).nest depth',
    fun hsame depth s make hs hmake next => ?_, fun shape xs hxs => ?_,
    fun shape j make hmake next => ?_⟩
  · exact (Nest.Same.eq hsame hs (helement'.nest depth s make hmake next)).symm
  · have hannounces : (xs.encode shape.kind.encode).Announces := shape.announcing.chain xs hxs
    rw [hannounces]
    exact shape.roundTrips.chain xs hxs
  · have hsame := (shape.restores.chain (.ofJson j) make hmake next).sameJson
    exact hsame.trans (Serial.toJson_ofJson j)

/-- Two rows of numbers, the second of which ends with cells of the first, under the names of two
texts. -/
theorem chains_round_trip_of_shared_rows :
    let row : Chain Int64 := ⟨[⟨1, 10⟩, ⟨0, 20⟩], 2⟩
    let rows : Chain (String × Chain Int64) :=
      ⟨[⟨4, "a", row⟩, ⟨3, "b", ⟨[⟨2, 5⟩, ⟨1, 10⟩, ⟨0, 20⟩], 3⟩⟩], 2⟩
    let encodeRow := Serial.encodePair Serial.str fun xs => Chain.encode xs Serial.encodeInt
    let decodeRow := Serial.decodePair Serial.decodeString (Chain.decode Serial.decodeInt)
    rows.encode encodeRow =
        .seq (some 2) [.seq (some 2) [.str "a", .seq (some 2) [.int 10, .int 20]],
          .seq (some 2) [.str "b", .seq (some 3) [.int 5, .int 10, .int 20]]] ∧
      ∃ make, Chain.decode decodeRow (rows.encode encodeRow) = .ok make ∧
        ∀ next, (make next).1.length = 2 ∧ (make next).1.toList.map (fun p => (p.1, p.2.toList)) =
          [("a", [10, 20]), ("b", [5, 10, 20])] := by
  intro row rows encodeRow decodeRow
  have hkey : RoundTrips (fun _ => True) Eq Serial.str Serial.decodeString := roundTrips_string
  obtain ⟨-, -, -, -, hpairs, -⟩ :=
    chains_round_trip hkey roundTrips_int restores_string restores_int
  have hrows : Chain.All (fun p : String × Chain Int64 => True ∧ Chain.All (fun _ => True) p.2)
      rows := by
    refine ⟨⟨rfl, by decide⟩, List.forall_mem_cons.mpr ⟨⟨trivial, ⟨rfl, by decide⟩, ?_⟩,
      List.forall_mem_singleton.mpr ⟨trivial, ⟨rfl, by decide⟩, ?_⟩⟩⟩
    · exact fun _ _ => trivial
    · exact fun _ _ => trivial
  have hread : ∃ make, Chain.decode decodeRow (rows.encode encodeRow) = .ok make ∧
      ∀ next, Chain.Resembles (fun p q => p.1 = q.1 ∧ Chain.Resembles Eq p.2 q.2) rows
        (make next).1 := by
    obtain ⟨make, hmake, hmade⟩ := hpairs 1 1 rows hrows
    exact ⟨make, hmake, fun next => (hmade next).2⟩
  obtain ⟨make, hmake, halike⟩ := hread
  refine ⟨rfl, make, hmake, fun next => ⟨(halike next).1.symm, ?_⟩⟩
  have hrow : rows.toList.map (fun p => (p.1, p.2.toList)) =
      (make next).1.toList.map fun p => (p.1, p.2.toList) := by
    rw [← List.forall₂_eq_eq_eq, List.forall₂_map_left_iff, List.forall₂_map_right_iff]
    refine (halike next).2.imp fun p q hpq => Prod.ext hpq.1 ?_
    exact List.forall₂_eq_eq_eq (α := Int64) ▸ hpq.2.2
  exact hrow.symm

end SharedList
