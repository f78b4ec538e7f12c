import SharedList.Proofs.TotalOrder
import SharedList.Value.Text

/-!
# Displayed chains are told apart

A displayed chain has brackets round its elements and commas between them.  Numbers and truth values
are displayed without either, and a chain within a chain closes every bracket that it opens.  So an
element ends where a comma or a closing bracket comes that is not its own, and a chain is read off
its text, at any depth; only texts, displayed as they are, would prevent it.

* `Readable` — elements are read off what they are displayed as, whatever comes after them.
* `Readable.of_plain` — elements without brackets and commas are; `readable_int`, `readable_bool`.
* `Readable.chain`, `Readable.nest` — from the elements to the chains, to any depth.
* `Value.Textless`, `Value.readable` — values in which there is no text.
* `displays_tell_chains_apart` — all of this together.
-/

set_option autoImplicit false

namespace SharedList

variable {α : Type}

/-! ## Where an element ends -/

/-- What may come after an element of a chain: nothing, a comma, or a closing bracket. -/
def Ends : List Char → Prop
  | [] => True
  | c :: _ => c = ',' ∨ c = ']'

/-- Elements of which `good` holds are read off what they are displayed as: equal ones are displayed
alike, and unequal ones are not, whatever comes after them. -/
structure Readable (good : α → Prop) (eq : α → α → Bool) (element : α → String) : Prop where
  alike : ∀ a b, good a → good b → eq a b = true → element a = element b
  tells : ∀ a b s t, good a → good b → Ends s → Ends t →
    (element a).toList ++ s = (element b).toList ++ t → eq a b = true
  /-- No element begins as a chain ends. -/
  begins : ∀ a, good a → ∃ c rest, (element a).toList = c :: rest ∧ c ≠ ']'

/-- The text of the elements after the first: each comes behind a comma and a blank. -/
def laterText (element : α → String) (xs : List α) : List Char :=
  xs.flatMap fun x => ',' :: ' ' :: (element x).toList

theorem laterText_cons (element : α → String) (x : α) (xs : List α) (s : List Char) :
    laterText element (x :: xs) ++ s =
      ',' :: ' ' :: ((element x).toList ++ (laterText element xs ++ s)) := by
  simp [laterText]

theorem ends_laterText (element : α → String) (xs : List α) (s : List Char) :
    Ends (laterText element xs ++ ']' :: s) := by
  cases xs with
  | nil => exact .inr rfl
  | cons x xs => exact .inl rfl

namespace Chain

theorem toList_joined (element : α → String) (x : α) (xs : List α) :
    (", ".intercalate ((x :: xs).map element)).toList =
      (element x).toList ++ laterText element xs := by
  rw [String.toList_intercalate]
  induction xs generalizing x with
  | nil => simp [laterText]
  | cons y xs ih =>
    have hlater := laterText_cons element y xs []
    rw [List.append_nil, List.append_nil] at hlater
    have hjoined := ih y
    simp only [List.map_cons] at hjoined ⊢
    rw [List.intercalate_cons_cons, hjoined, hlater, List.append_assoc]
    rfl

theorem toList_display (xs : Chain α) (element : α → String) :
    (xs.display element).toList =
      '[' :: ((", ".intercalate (xs.toList.map element)).toList ++ [']']) := by
  rw [display, String.toList_append, String.toList_append]
  rfl

theorem toList_display_nil {xs : Chain α} (h : xs.toList = []) (element : α → String)
    (s : List Char) : (xs.display element).toList ++ s = '[' :: ']' :: s := by
  rw [toList_display, h]
  simp

theorem toList_display_cons {xs : Chain α} {x : α} {rest : List α} (h : xs.toList = x :: rest)
    (element : α → String) (s : List Char) :
    (xs.display element).toList ++ s =
      '[' :: ((element x).toList ++ (laterText element rest ++ ']' :: s)) := by
  rw [toList_display, h, toList_joined]
  simp

end Chain

/-- A chain of chains is displayed as its chains are, and so on down to the elements. -/
def Nest.display (element : α → String) : (depth : Nat) → Nest α depth → String
  | 0 => element
  | depth + 1 => fun xs => Chain.display xs (display element depth)

/-! ## Chains of elements -/

namespace Readable

variable {good : α → Prop} {eq : α → α → Bool} {element : α → String}

/-- Of elements that are displayed alike not only the texts agree but also what follows them. -/
theorem rest_eq (h : Readable good eq element) {a b : α} {s t : List Char} (ha : good a)
    (hb : good b) (hs : Ends s) (ht : Ends t)
    (htext : (element a).toList ++ s = (element b).toList ++ t) : s = t := by
  rw [h.alike a b ha hb (h.tells a b s t ha hb hs ht htext)] at htext
  exact List.append_cancel_left htext

/-- Rows that are displayed alike up to the closing bracket have equally many elements, and equal
ones. -/
theorem of_laterText (h : Readable good eq element) {xs ys : List α} {s t : List Char}
    (hxs : ∀ x ∈ xs, good x) (hys : ∀ y ∈ ys, good y)
    (htext : laterText element xs ++ ']' :: s = laterText element ys ++ ']' :: t) :
    xs.length = ys.length ∧ ∀ p ∈ xs.zip ys, eq p.1 p.2 = true := by
  induction xs generalizing ys with
  | nil =>
    cases ys with
    | nil => exact ⟨rfl, List.forall_mem_nil _⟩
    | cons y ys => exact absurd (List.head_eq_of_cons_eq htext) (by decide)
  | cons x xs ih =>
    cases ys with
    | nil => exact absurd (List.head_eq_of_cons_eq htext) (by decide)
    | cons y ys =>
      obtain ⟨hx, hxs⟩ := List.forall_mem_cons.mp hxs
      obtain ⟨hy, hys⟩ := List.forall_mem_cons.mp hys
      rw [laterText_cons, laterText_cons] at htext
      have htexts := List.tail_eq_of_cons_eq (List.tail_eq_of_cons_eq htext)
      have hends := ends_laterText element xs s
      have hends' := ends_laterText element ys t
      obtain ⟨hlength, hall⟩ := ih hxs hys (h.rest_eq hx hy hends hends' htexts)
      rw [List.zip_cons_cons, List.forall_mem_cons, List.length_cons, List.length_cons, hlength]
      exact ⟨rfl, h.tells x y _ _ hx hy hends hends' htexts, hall⟩

/-- Equal rows are displayed alike. -/
theorem map_eq (h : Readable good eq element) {xs ys : List α} (hxs : ∀ x ∈ xs, good x)
    (hys : ∀ y ∈ ys, good y) (hlength : xs.length = ys.length)
    (hall : ∀ p ∈ xs.zip ys, eq p.1 p.2 = true) : xs.map element = ys.map element := by
  induction xs generalizing ys with
  | nil =>
    cases ys with
    | nil => rfl
    | cons y ys => cases hlength
  | cons x xs ih =>
    cases ys with
    | nil => cases hlength
    | cons y ys =>
      obtain ⟨hx, hxs⟩ := List.forall_mem_cons.mp hxs
      obtain ⟨hy, hys⟩ := List.forall_mem_cons.mp hys
      rw [List.zip_cons_cons, List.forall_mem_cons] at hall
      rw [List.map_cons, List.map_cons, h.alike x y hx hy hall.1,
        ih hxs hys (Nat.succ.inj hlength) hall.2]

/-- **Chains of readable elements are readable.**  The first character behind the opening bracket
tells whether there is a first element; from there on each element tells where it ends. -/
theorem chain (h : Readable good eq element) :
    Readable (fun xs : Chain α => xs.WellFormed ∧ ∀ x ∈ xs.toList, good x)
      (fun xs ys => xs.equal ys eq) fun xs => xs.display element := by
  constructor
  · rintro xs ys ⟨hxs, hgood⟩ ⟨hys, hgood'⟩ heq
    obtain ⟨hlength, hall⟩ := (Chain.equal_eq_true_iff xs ys eq).mp heq
    rw [← hxs.toList_length, ← hys.toList_length] at hlength
    show xs.display element = ys.display element
    rw [Chain.display, Chain.display, h.map_eq hgood hgood' hlength hall]
  · rintro xs ys s t ⟨hxs, hgood⟩ ⟨hys, hgood'⟩ - - htext
    rw [Chain.equal_eq_true_iff, ← hxs.toList_length, ← hys.toList_length]
    cases hrow : xs.toList with
    | nil =>
      cases hrow' : ys.toList with
      | nil => exact ⟨rfl, List.forall_mem_nil _⟩
      | cons y rest' =>
        obtain ⟨c, text, hbegins, hc⟩ := h.begins y (hgood' y (hrow' ▸ List.mem_cons_self))
        rw [Chain.toList_display_nil hrow, Chain.toList_display_cons hrow', hbegins] at htext
        injection htext with _ htext
        exact absurd (List.head_eq_of_cons_eq htext).symm hc
    | cons x rest =>
      cases hrow' : ys.toList with
      | nil =>
        obtain ⟨c, text, hbegins, hc⟩ := h.begins x (hgood x (hrow ▸ List.mem_cons_self))
        rw [Chain.toList_display_cons hrow, Chain.toList_display_nil hrow', hbegins] at htext
        injection htext with _ htext
        exact absurd (List.head_eq_of_cons_eq htext) hc
      | cons y rest' =>
        rw [Chain.toList_display_cons hrow, Chain.toList_display_cons hrow'] at htext
        rw [hrow] at hgood
        rw [hrow'] at hgood'
        refine h.of_laterText hgood hgood' (s := s) (t := t) ?_
        rw [laterText_cons, laterText_cons, List.tail_eq_of_cons_eq htext]
  · intro xs _
    exact ⟨'[', _, Chain.toList_display xs element, by decide⟩

/-- Chains of readable elements are readable at any depth. -/
theorem nest (h : Readable (fun _ => True) eq element) (depth : Nat) :
    Readable (Nest.WellFormed depth) (Nest.eq eq depth) (Nest.display element depth) := by
  induction depth with
  | zero => exact h
  | succ depth ih => exact ih.chain

end Readable

/-! ## Numbers and truth values -/

/-- A text that is not empty and has neither a comma nor a closing bracket in it. -/
structure Plain (text : String) : Prop where
  filled : text.toList ≠ []
  free : ∀ c ∈ text.toList, c ≠ ',' ∧ c ≠ ']'

/-- Of two rows of characters that end at the first comma or closing bracket, one does not go on
where the other ends. -/
theorem eq_of_ends {u v s t : List Char} (hu : ∀ c ∈ u, c ≠ ',' ∧ c ≠ ']')
    (hv : ∀ c ∈ v, c ≠ ',' ∧ c ≠ ']') (hs : Ends s) (ht : Ends t) (h : u ++ s = v ++ t) :
    u = v := by
  induction u generalizing v with
  | nil =>
    cases v with
    | nil => rfl
    | cons c v =>
      obtain ⟨hcomma, hbracket⟩ := hv c List.mem_cons_self
      rw [show s = c :: (v ++ t) from h] at hs
      exact (hs.elim hcomma hbracket).elim
  | cons c u ih =>
    cases v with
    | nil =>
      obtain ⟨hcomma, hbracket⟩ := hu c List.mem_cons_self
      rw [show t = c :: (u ++ s) from h.symm] at ht
      exact (ht.elim hcomma hbracket).elim
    | cons d v =>
      obtain ⟨-, hu⟩ := List.forall_mem_cons.mp hu
      obtain ⟨-, hv⟩ := List.forall_mem_cons.mp hv
      rw [List.head_eq_of_cons_eq h, ih hu hv (List.tail_eq_of_cons_eq h)]

/-- **Elements with plain texts are readable** if their texts tell them. -/
theorem Readable.of_plain {good : α → Prop} {eq : α → α → Bool} {element : α → String}
    (hplain : ∀ a, good a → Plain (element a))
    (htells : ∀ a b, good a → good b → (eq a b = true ↔ element a = element b)) :
    Readable good eq element := by
  refine ⟨fun a b ha hb => (htells a b ha hb).mp, fun a b s t ha hb hs ht h => ?_, fun a ha => ?_⟩
  · have htext := eq_of_ends (hplain a ha).free (hplain b hb).free hs ht h
    exact (htells a b ha hb).mpr (String.toList_inj.mp htext)
  · obtain ⟨c, rest, htext⟩ := List.exists_cons_of_ne_nil (hplain a ha).filled
    exact ⟨c, rest, htext, ((hplain a ha).free c (htext ▸ List.mem_cons_self)).2⟩

theorem isDigit_of_mem_repr {n : Nat} {c : Char} (h : c ∈ n.repr.toList) : c.isDigit = true := by
  rw [Nat.toList_repr] at h
  exact Nat.isDigit_of_mem_toDigits (by decide) (by decide) h

/-- A natural number is read off its digits. -/
theorem eq_of_repr {n k : Nat} (h : n.repr.toList = k.repr.toList) : n = k := by
  rw [Nat.toList_repr, Nat.toList_repr] at h
  have hread := Nat.ofDigitChars_toDigits (b := 10) (n := n) (by decide) (by decide)
  rw [h, Nat.ofDigitChars_toDigits (by decide) (by decide)] at hread
  exact hread.symm

/-- A whole number is written with digits, behind a sign if it is negative. -/
theorem toList_toString (n : Int) :
    (toString n).toList =
      if 0 ≤ n then n.toNat.repr.toList else '-' :: (-n).toNat.repr.toList := by
  rw [Int.toString_eq_repr, Int.repr_eq_if]
  split
  · rfl
  · rw [String.toList_append]
    rfl

theorem digit_or_sign_of_mem {n : Int} {c : Char} (h : c ∈ (toString n).toList) :
    c.isDigit = true ∨ c = '-' := by
  rw [toList_toString] at h
  split at h
  · exact .inl (isDigit_of_mem_repr h)
  · rcases List.mem_cons.mp h with rfl | h
    · exact .inr rfl
    · exact .inl (isDigit_of_mem_repr h)

theorem eq_of_toString {n k : Int} (h : toString n = toString k) : n = k := by
  have hsign : ∀ k : Nat, '-' ∉ k.repr.toList := fun k hk =>
    absurd (isDigit_of_mem_repr hk) (by decide)
  rw [← String.toList_inj, toList_toString, toList_toString] at h
  split at h <;> split at h
  · have := eq_of_repr h
    omega
  · exact absurd (h ▸ List.mem_cons_self) (hsign n.toNat)
  · exact absurd (h ▸ List.mem_cons_self) (hsign k.toNat)
  · have := eq_of_repr (List.tail_eq_of_cons_eq h)
    omega

theorem plain_int (n : Int) : Plain (toString n) := by
  constructor
  · rw [toList_toString]
    split
    · exact fun h => Nat.repr_ne_empty (String.toList_eq_nil_iff.mp h)
    · exact List.cons_ne_nil _ _
  · intro c hc
    rcases digit_or_sign_of_mem hc with h | rfl
    · constructor <;> (rintro rfl; exact absurd h (by decide))
    · decide

theorem plain_bool (b : Bool) : Plain (Value.boolText b) := by
  cases b
  · constructor <;> simp [Value.boolText]
  · constructor <;> simp [Value.boolText]

/-- Whole numbers of any size are readable. -/
theorem readable_int : Readable (fun _ : Int => True) (· == ·) toString := by
  refine .of_plain (fun n _ => plain_int n) fun n k _ _ => ?_
  rw [beq_iff_eq]
  exact ⟨congrArg toString, eq_of_toString⟩

theorem readable_bool : Readable (fun _ : Bool => True) (· == ·) Value.boolText :=
  .of_plain (fun b _ => plain_bool b) fun a b _ _ => by cases a <;> cases b <;> decide

/-! ## Values -/

namespace Value

/-- No text occurs in the value: it is a truth value, a number, or a chain of such values. -/
inductive Textless : Value → Prop
  | bool (b : Bool) : Textless (bool b)
  | int (n : Int64) : Textless (int n)
  | list {xs : Chain Value} : (∀ x ∈ xs.toList, Textless x) → Textless (list xs)

/-- The kind of the values that are displayed with `c` in front, if they are not texts. -/
def rankOf (c : Char) : Nat :=
  if c = '[' then 3 else if c = 't' ∨ c = 'f' then 0 else if c.isDigit ∨ c = '-' then 1 else 2

/-- The first character tells the kind. -/
theorem display_begins {v : Value} (h : v.Textless) :
    ∃ c rest, v.display.toList = c :: rest ∧ rankOf c = v.rank := by
  cases h with
  | bool b =>
    rw [display]
    cases b
    · exact ⟨'f', _, rfl, rfl⟩
    · exact ⟨'t', _, rfl, rfl⟩
  | int n =>
    rw [display]
    obtain ⟨c, rest, htext⟩ := List.exists_cons_of_ne_nil (plain_int n.toInt).filled
    refine ⟨c, rest, htext, ?_⟩
    have hc := digit_or_sign_of_mem (htext ▸ List.mem_cons_self : c ∈ (toString n.toInt).toList)
    have hbracket : c ≠ '[' := by
      rintro rfl
      exact absurd hc (by decide)
    have hletter : ¬(c = 't' ∨ c = 'f') := by
      rintro (rfl | rfl)
      · exact absurd hc (by decide)
      · exact absurd hc (by decide)
    rw [rankOf, if_neg hbracket, if_neg hletter, if_pos hc]
    rfl
  | @list xs _ =>
    rw [display_list]
    exact ⟨'[', _, Chain.toList_display xs display, rfl⟩

theorem rank_eq_of_display {a b : Value} (ha : a.Textless) (hb : b.Textless) {s t : List Char}
    (h : a.display.toList ++ s = b.display.toList ++ t) : a.rank = b.rank := by
  obtain ⟨c, rest, htext, hrank⟩ := display_begins ha
  obtain ⟨d, rest', htext', hrank'⟩ := display_begins hb
  rw [htext, htext'] at h
  rw [← hrank, ← hrank', List.head_eq_of_cons_eq h]

theorem textless_list_iff {xs : Chain Value} :
    (list xs).Textless ↔ ∀ x ∈ xs.toList, x.Textless :=
  ⟨fun | .list h => h, .list⟩

/-- The elements of a chain of bounded size are smaller than it. -/
theorem textless_below {xs : Chain Value} {n : Nat}
    (h : ((list xs).WellFormed ∧ (list xs).Textless) ∧ sizeOf (list xs) < n + 1) :
    xs.WellFormed ∧ ∀ x ∈ xs.toList, (x.WellFormed ∧ x.Textless) ∧ sizeOf x < n := by
  obtain ⟨⟨hwf, htext⟩, hsize⟩ := h
  obtain ⟨hself, helems⟩ := elements_below ⟨hwf, hsize⟩
  refine ⟨hself, fun x hx => ?_⟩
  exact ⟨⟨(helems x hx).1, textless_list_iff.mp htext x hx⟩, (helems x hx).2⟩

theorem readable_below (n : Nat) :
    Readable (fun v : Value => (v.WellFormed ∧ v.Textless) ∧ sizeOf v < n) eq display := by
  induction n with
  | zero =>
    exact ⟨fun a _ ha => absurd ha.2 (Nat.not_lt_zero _),
      fun a _ _ _ ha => absurd ha.2 (Nat.not_lt_zero _), fun a ha => absurd ha.2 (Nat.not_lt_zero _)⟩
  | succ n ih =>
    refine ⟨fun a b ha hb h => ?_, fun a b s t ha hb hs ht h => ?_, fun a ha => ?_⟩
    · by_cases hrank : a.rank = b.rank
      · match a, b, hrank with
        | bool a, bool b, _ => rw [eq_of_beq (show (a == b) = true from h)]
        | int a, int b, _ => rw [eq_of_beq (show (a == b) = true from h)]
        | str a, str b, _ => rw [eq_of_beq (show (a == b) = true from h)]
        | list xs, list ys, _ =>
          rw [eq_list] at h
          rw [display_list, display_list]
          exact ih.chain.alike xs ys (textless_below ha) (textless_below hb) h
      · rw [eq_of_rank_ne hrank] at h
        cases h
    · match a, b, rank_eq_of_display ha.1.2 hb.1.2 h with
      | bool a, bool b, _ =>
        rw [display, display] at h
        exact readable_bool.tells a b s t trivial trivial hs ht h
      | int a, int b, _ =>
        rw [display, display] at h
        have hequal := readable_int.tells a.toInt b.toInt s t trivial trivial hs ht h
        exact beq_iff_eq.mpr (Int64.toInt_inj.mp (eq_of_beq hequal))
      | str a, _, _ => cases ha.1.2
      | list xs, list ys, _ =>
        rw [display_list, display_list] at h
        rw [eq_list]
        exact ih.chain.tells xs ys s t (textless_below ha) (textless_below hb) hs ht h
    · obtain ⟨c, rest, htext, hrank⟩ := display_begins ha.1.2
      refine ⟨c, rest, htext, ?_⟩
      rintro rfl
      have hkind : a.rank ≠ 2 := by cases ha.1.2 <;> simp [rank]
      exact hkind hrank.symm

/-- **Values without texts are readable.** -/
theorem readable : Readable (fun v => v.WellFormed ∧ v.Textless) eq display := by
  refine ⟨fun a b ha hb => ?_, fun a b s t ha hb => ?_, fun a ha => ?_⟩
  · exact (readable_below (sizeOf a + sizeOf b + 1)).alike a b ⟨ha, by omega⟩ ⟨hb, by omega⟩
  · exact (readable_below (sizeOf a + sizeOf b + 1)).tells a b s t ⟨ha, by omega⟩ ⟨hb, by omega⟩
  · exact (readable_below (sizeOf a + 1)).begins a ⟨ha, by omega⟩

end Value

/-! ## All of them -/

/-- **Displayed chains are told apart.**  Where elements are read off what they are displayed as,
chains of any depth are; whole numbers of any size and truth values are, and so are values in which
no text occurs.  So two chains of such values, of any mixture and depth, are displayed alike exactly
if they are equal, and this is so wherever they are displayed in front of a comma, of a closing
bracket, or of nothing; and each chain in them is displayed as its elements in brackets, with a
comma and a blank between any two. -/
theorem displays_tell_chains_apart {xs ys : Chain Value}
    (hxs : (Value.list xs).WellFormed ∧ (Value.list xs).Textless)
    (hys : (Value.list ys).WellFormed ∧ (Value.list ys).Textless) :
    -- Chains of values without texts
    (xs.display Value.display = ys.display Value.display ↔ xs.equal ys Value.eq = true) ∧
    (∀ s t, Ends s → Ends t →
      (xs.display Value.display).toList ++ s = (ys.display Value.display).toList ++ t →
        xs.equal ys Value.eq = true ∧ s = t) ∧
    (∀ zs : Chain Value, (Value.list zs).display =
      "[" ++ ", ".intercalate (zs.toList.map Value.display) ++ "]") ∧
    -- Chains of readable elements
    (∀ {α : Type} {eq : α → α → Bool} {element : α → String},
      Readable (fun _ => True) eq element → ∀ depth,
        Readable (Nest.WellFormed depth) (Nest.eq eq depth) (Nest.display element depth)) ∧
    Readable (fun _ : Int => True) (· == ·) toString ∧
    Readable (fun _ : Bool => True) (· == ·) Value.boolText := by
  have htells : ∀ s t, Ends s → Ends t →
      (xs.display Value.display).toList ++ s = (ys.display Value.display).toList ++ t →
        xs.equal ys Value.eq = true ∧ s = t := by
    intro s t hs ht h
    rw [← Value.display_list, ← Value.display_list] at h
    have hequal := Value.readable.tells _ _ s t hxs hys hs ht h
    rw [Value.eq_list] at hequal
    exact ⟨hequal, Value.readable.rest_eq hxs hys hs ht h⟩
  refine ⟨⟨fun h => ?_, fun h => ?_⟩, htells, Value.display_list, fun h => h.nest, readable_int,
    readable_bool⟩
  · exact (htells [] [] trivial trivial (by rw [h])).1
  · rw [← Value.eq_list] at h
    have halike := Value.readable.alike _ _ hxs hys h
    rwa [Value.display_list, Value.display_list] at halike

/-- A negative number and an empty chain, in one chain and in a chain within it: `[-1, []]` and
`[[-1, []]]`; and the latter once more, in cells of its own. -/
theorem displays_tell_brackets_apart :
    let flat : Chain Value := ⟨[⟨1, .int (-1)⟩, ⟨0, .list ⟨[], 0⟩⟩], 2⟩
    let flat' : Chain Value := ⟨[⟨5, .int (-1)⟩, ⟨4, .list ⟨[], 0⟩⟩], 2⟩
    let nested : Chain Value := ⟨[⟨2, .list flat⟩], 1⟩
    let nested' : Chain Value := ⟨[⟨6, .list flat'⟩], 1⟩
    ((Value.list flat).WellFormed ∧ (Value.list flat).Textless) ∧
      ((Value.list nested).WellFormed ∧ (Value.list nested).Textless) ∧
      ((Value.list nested').WellFormed ∧ (Value.list nested').Textless) ∧
      flat.display Value.display ≠ nested.display Value.display ∧
      nested.display Value.display = nested'.display Value.display := by
  intro flat flat' nested nested'
  have hint : ∀ n, (Value.int n).WellFormed ∧ (Value.int n).Textless := fun n => ⟨nofun, .int n⟩
  have hlist : ∀ xs : Chain Value, xs.WellFormed → (∀ x ∈ xs.toList, x.WellFormed ∧ x.Textless) →
      (Value.list xs).WellFormed ∧ (Value.list xs).Textless := fun xs hself h =>
    ⟨Value.wellFormed_list_iff.mpr ⟨hself, fun x hx => (h x hx).1⟩, .list fun x hx => (h x hx).2⟩
  have hnone := hlist ⟨[], 0⟩ ⟨rfl, by decide⟩ nofun
  have hflat := hlist flat ⟨rfl, by decide⟩
    (List.forall_mem_cons.mpr ⟨hint (-1), List.forall_mem_singleton.mpr hnone⟩)
  have hflat' := hlist flat' ⟨rfl, by decide⟩
    (List.forall_mem_cons.mpr ⟨hint (-1), List.forall_mem_singleton.mpr hnone⟩)
  have hnested := hlist nested ⟨rfl, by decide⟩ (List.forall_mem_singleton.mpr hflat)
  have hnested' := hlist nested' ⟨rfl, by decide⟩ (List.forall_mem_singleton.mpr hflat')
  obtain ⟨hapart, -⟩ := displays_tell_chains_apart hflat hnested
  obtain ⟨halike, -⟩ := displays_tell_chains_apart hnested hnested'
  refine ⟨hflat, hnested, hnested', fun h => ?_, halike.mpr ?_⟩
  · exact absurd (hapart.mp h) (by decide)
  · rw [← Value.eq_list]
    decide

end SharedList
